import VehicleLink.Proofs.Command.Moves

/-! The order of the queue, and which commands are in flight at the same time: each of them has
overtaken the next one. -/

namespace VehicleLink

def Command.Precedes (c d : Command) : Prop :=
  c.opcode < d.opcode ∨ c.opcode = d.opcode ∧ c.arrival < d.arrival

def Command.Overtakes (c d : Command) : Prop :=
  c.opcode < d.opcode ∧ d.arrival < c.arrival

theorem Command.Precedes.opcode_le {c d : Command} (h : c.Precedes d) : c.opcode ≤ d.opcode := by
  rcases h with lower | ⟨same, _⟩
  · exact UInt16.le_of_lt lower
  · exact UInt16.le_of_eq same

theorem Command.Precedes.overtakes {c d : Command} (h : c.Precedes d)
    (later : d.arrival < c.arrival) : c.Overtakes d := by
  rcases h with lower | ⟨_, earlier⟩
  · exact ⟨lower, later⟩
  · exact absurd earlier (Nat.lt_asymm later)

theorem Command.Overtakes.arrival_ne {c d : Command} (h : c.Overtakes d) :
    c.arrival ≠ d.arrival :=
  Nat.ne_of_gt h.2

namespace Queue

def inFlight (q : Queue) : List Command := q.pending.filter (0 < ·.attempts)

theorem mem_inFlight {q : Queue} {c : Command} :
    c ∈ q.inFlight ↔ c ∈ q.pending ∧ 0 < c.attempts := by
  simp [inFlight]

theorem pairwise_enqueue {R : Command → Command → Prop} {c : Command} {l : List Command}
    (sorted : l.Pairwise (·.opcode ≤ ·.opcode)) (h : l.Pairwise R)
    (before : ∀ d ∈ l, d.opcode ≤ c.opcode → R d c)
    (after : ∀ d ∈ l, c.opcode < d.opcode → R c d) : (enqueue c l).Pairwise R := by
  induction l with
  | nil => simp [enqueue]
  | cons d rest ih =>
    obtain ⟨first, sorted⟩ := List.pairwise_cons.mp sorted
    obtain ⟨head, tail⟩ := List.pairwise_cons.mp h
    rw [enqueue]
    split
    · next le =>
      refine List.pairwise_cons.mpr ⟨?_, ih sorted tail ?_ ?_⟩
      · intro e isMember
        rcases List.mem_cons.mp ((enqueue_perm c rest).mem_iff.mp isMember) with rfl | old
        · exact before d (by simp) le
        · exact head e old
      · exact fun e isRest => before e (by simp [isRest])
      · exact fun e isRest => after e (by simp [isRest])
    · next notLe =>
      have lower : c.opcode < d.opcode := UInt16.not_le.mp notLe
      refine List.pairwise_cons.mpr ⟨?_, h⟩
      intro e isMember
      rcases List.mem_cons.mp isMember with rfl | isRest
      · exact after e (by simp) lower
      · exact after e (by simp [isRest]) (UInt16.lt_of_lt_of_le lower (first e isRest))

structure Ordered (q : Queue) : Prop where
  precedes : q.pending.Pairwise Command.Precedes
  arrived : ∀ c ∈ q.pending, c.arrival < q.arrivals
  /-- Whatever stands before a command that was sent came after it. -/
  later : q.pending.Pairwise fun c d => 0 < d.attempts → d.arrival < c.arrival

namespace Ordered

variable {q : Queue}

theorem empty (retries : Nat) : (Queue.empty retries).Ordered where
  precedes := .nil
  arrived := by simp [Queue.empty]
  later := .nil

theorem push (h : q.Ordered) (opcode : UInt16) (arguments : Arguments) (handle : Option Nat) :
    (q.push opcode arguments handle).Ordered := by
  have sorted := h.precedes.imp Command.Precedes.opcode_le
  constructor
  · refine pairwise_enqueue sorted h.precedes ?_ fun d _ lower => .inl lower
    intro d isPending le
    rcases UInt16.lt_or_eq_of_le le with lower | same
    · exact .inl lower
    · exact .inr ⟨same, h.arrived d isPending⟩
  · intro c isPending
    rcases List.mem_cons.mp ((enqueue_perm _ _).mem_iff.mp isPending) with rfl | old
    · exact Nat.lt_succ_self _
    · exact Nat.lt_succ_of_lt (h.arrived c old)
  · refine pairwise_enqueue sorted h.later ?_ fun d isPending _ _ => h.arrived d isPending
    exact fun d _ _ sent => absurd sent (Nat.lt_irrefl 0)

theorem tail {c : Command} {rest : List Command} (h : q.Ordered) (pending : q.pending = c :: rest)
    (last : Option LastCommand) : Ordered { q with pending := rest, last } := by
  have precedes := h.precedes
  have arrived := h.arrived
  have later := h.later
  rw [pending] at precedes arrived later
  exact ⟨precedes.of_cons, fun d isRest => arrived d (by simp [isRest]), later.of_cons⟩

theorem head {c : Command} {rest : List Command} (h : q.Ordered)
    (pending : q.pending = c :: rest) (attempts : Nat) (status : AckStatus)
    (last : Option LastCommand) :
    Ordered { q with pending := { c with attempts, status } :: rest, last } := by
  have precedes := h.precedes
  have arrived := h.arrived
  have later := h.later
  rw [pending] at precedes arrived later
  exact ⟨by simpa [Command.Precedes] using precedes, by simpa using arrived, by simpa using later⟩

theorem overtakes_of_inFlight (h : q.Ordered) : q.inFlight.Pairwise Command.Overtakes := by
  rw [inFlight, List.pairwise_filter]
  refine (h.precedes.and h.later).imp ?_
  intro c d ⟨precedes, later⟩ _ sent
  exact precedes.overtakes (later (by simpa using sent))

theorem inFlight_le_one_iff (h : q.Ordered) :
    q.inFlight.length ≤ 1 ↔ ∀ c ∈ q.inFlight, ∀ d ∈ q.inFlight, ¬ c.Overtakes d := by
  constructor
  · intro atMostOne c isFirst d isSecond overtakes
    match inFlight : q.inFlight with
    | [] => simp [inFlight] at isFirst
    | [e] =>
      have first : c = e := by simpa [inFlight] using isFirst
      have second : d = e := by simpa [inFlight] using isSecond
      exact overtakes.arrival_ne (by rw [first, second])
    | _ :: _ :: _ => simp [inFlight] at atMostOne
  · intro none
    have overtakes := h.overtakes_of_inFlight
    match inFlight : q.inFlight with
    | [] => simp
    | [_] => simp
    | c :: d :: rest =>
      rw [inFlight] at overtakes none
      exact absurd (List.rel_of_pairwise_cons overtakes (by simp)) (none c (by simp) d (by simp))

theorem overtakes_of_due (h : q.Ordered) {c d : Command} (due : c ∈ q.due?)
    (sent : d ∈ q.inFlight) (other : c.arrival ≠ d.arrival) : c.Overtakes d := by
  obtain ⟨isPending, attempted⟩ := mem_inFlight.mp sent
  cases pending : q.pending with
  | nil => simp [pending] at isPending
  | cons e rest =>
    have same : e = c := by
      simp only [due?, head?, pending, List.head?_cons, Option.bind_some] at due
      split at due
      · simpa using due
      · simp at due
    have precedes := h.precedes
    have later := h.later
    rw [pending] at isPending precedes later
    rcases List.mem_cons.mp isPending with rfl | isRest
    · exact absurd (congrArg Command.arrival same).symm other
    · rw [← same]
      exact (List.rel_of_pairwise_cons precedes isRest).overtakes
        (List.rel_of_pairwise_cons later isRest attempted)

end Ordered

def Single (q : Queue) : Prop := ∀ c ∈ q.pending.tail, c.attempts = 0

namespace Single

variable {q : Queue}

theorem inFlight_le_one (h : q.Single) : q.inFlight.length ≤ 1 := by
  rw [inFlight]
  cases pending : q.pending with
  | nil => simp
  | cons c rest =>
    have unsent : rest.filter (0 < ·.attempts) = [] := by
      refine List.filter_eq_nil_iff.mpr fun d isRest => ?_
      simp [h d (by simpa [pending] using isRest)]
    rw [List.filter_cons, unsent]
    split <;> simp

theorem push (h : q.Single) {opcode : UInt16}
    (behind : ∀ d ∈ q.inFlight, ¬ opcode < d.opcode) (arguments : Arguments)
    (handle : Option Nat) : (q.push opcode arguments handle).Single := by
  rw [Single, Queue.push]
  cases pending : q.pending with
  | nil => simp [enqueue]
  | cons d rest =>
    have unsent : ∀ e ∈ rest, e.attempts = 0 := fun e isRest => h e (by simp [pending, isRest])
    rw [enqueue]
    split
    · intro e isTail
      rcases List.mem_cons.mp ((enqueue_perm _ rest).mem_iff.mp isTail) with rfl | isRest
      · rfl
      · exact unsent e isRest
    · next notLe =>
      intro e isTail
      rcases List.mem_cons.mp isTail with rfl | isRest
      · refine Nat.eq_zero_of_not_pos fun sent => ?_
        exact behind e (mem_inFlight.mpr ⟨by simp [pending], sent⟩) (UInt16.not_le.mp notLe)
      · exact unsent e isRest

end Single

namespace Session

def Preempts (s : Session) : Action → Prop
  | .push opcode _ => ∃ d ∈ s.queue.inFlight, opcode < d.opcode
  | _ => False

theorem single_step {s : Session} (h : s.queue.Single) {action : Action}
    (inOrder : ¬ s.Preempts action) : (s.step action).1.queue.Single := by
  generalize moved : (s.step action).1 = s'
  have move : s.Move action s' := moved ▸ s.move_step action
  cases move with
  | closed => exact h
  | pushed => exact h.push (fun d sent lower => inOrder ⟨d, sent, lower⟩) _ _
  | answered _ pending => simpa [Single, pending] using h
  | unmatched => exact h
  | idle => exact h
  | settled _ pending =>
    intro c isTail
    exact h c (by simpa [pending] using List.mem_of_mem_tail isTail)
  | sent _ pending => simpa [Single, pending] using h
  | forgotten => exact h
  | released => exact h
  | cancelled => simp [Single, Session.close]

theorem single_run {s : Session} (h : s.queue.Single) (actions : List Action) :
    (s.run actions).queue.Single
      ∨ ∃ before action after, actions = before ++ action :: after
        ∧ (s.run before).Preempts action := by
  induction actions generalizing s with
  | nil => exact .inl h
  | cons action rest ih =>
    -- The first push that goes before a command in flight is the one to name.
    by_cases preempts : s.Preempts action
    · exact .inr ⟨[], action, rest, rfl, preempts⟩
    · rcases ih (single_step h preempts) with single | ⟨before, later, after, rfl, preempts⟩
      · exact .inl single
      · exact .inr ⟨action :: before, later, after, rfl, preempts⟩

theorem ordered_step {s : Session} (h : s.queue.Ordered) (action : Action) :
    (s.step action).1.queue.Ordered := by
  generalize moved : (s.step action).1 = s'
  have move : s.Move action s' := moved ▸ s.move_step action
  cases move with
  | closed => exact h
  | pushed => exact h.push _ _ _
  | answered _ pending => exact h.head pending _ _ _
  | unmatched => exact h
  | idle => exact h
  | settled _ pending => exact h.tail pending _
  | sent _ pending => exact h.head pending _ _ _
  | forgotten => exact ⟨h.precedes, h.arrived, h.later⟩
  | released => exact h
  | cancelled => exact ⟨.nil, by simp [Session.close], .nil⟩

theorem ordered_run {s : Session} (h : s.queue.Ordered) (actions : List Action) :
    (s.run actions).queue.Ordered := by
  induction actions generalizing s with
  | nil => exact h
  | cons action rest ih => exact ih (ordered_step h action)

/-- More than one command is in flight only after a push that goes before one in flight, and
exactly if one of them has overtaken another; and a command is sent beside one that is in flight
only if it has overtaken it. -/
theorem one_inFlight_unless_preempted (retries : Nat) (actions : List Action) :
    let q := ((start retries).run actions).queue
    (q.inFlight.length ≤ 1
        ∨ ∃ before action after, actions = before ++ action :: after
          ∧ ((start retries).run before).Preempts action)
      ∧ (q.inFlight.length ≤ 1 ↔ ∀ c ∈ q.inFlight, ∀ d ∈ q.inFlight, ¬ c.Overtakes d)
      ∧ ∀ c ∈ q.due?, ∀ d ∈ q.inFlight, c.arrival ≠ d.arrival → c.Overtakes d := by
  intro q
  have ordered : q.Ordered := ordered_run (.empty retries) actions
  have single : (start retries).queue.Single := by simp [Single, start, Queue.empty]
  exact ⟨(single_run single actions).imp_left Single.inFlight_le_one, ordered.inFlight_le_one_iff,
    fun c due d sent other => ordered.overtakes_of_due due sent other⟩

def overtaking : List Action :=
  let arguments : Arguments := .replicate 7 .zero
  [.push 300 arguments, .tick true, .push 176 arguments, .tick true]

theorem two_inFlight_of_overtaking :
    ¬ ∀ (retries : Nat) (actions : List Action),
      ((start retries).run actions).queue.inFlight.length ≤ 1 := by
  intro claim
  have single : ((start 5).run overtaking).queue.inFlight.length ≤ 1 := claim 5 overtaking
  revert single
  decide

end Session

end Queue

end VehicleLink
