import VehicleLink.Proofs.Engine.Sending

namespace VehicleLink

structure Queue.Records (orders : List (UInt16 × Arguments)) (tries : List Nat) (q : Queue) :
    Prop where
  arrivals : q.arrivals = orders.length
  ordered : ∀ c ∈ q.pending, orders[c.arrival]? = some (c.opcode, c.arguments)
  counted : ∀ c ∈ q.pending, c.attempts = tries.count c.arrival
  distinct : (q.pending.map Command.arrival).Nodup
  past : ∀ arrival ∈ tries, arrival < orders.length

namespace Queue

theorem mem_pending_of_due? {q : Queue} {c : Command} (h : q.due? = some c) : c ∈ q.pending := by
  obtain ⟨head, isHead, same⟩ := Option.bind_eq_some_iff.mp h
  split at same
  · cases same
    exact List.mem_of_head? isHead
  · cases same

namespace Records

variable {orders : List (UInt16 × Arguments)} {tries : List Nat} {q q' : Queue}

theorem empty (retries : Nat) : Records [] [] (Queue.empty retries) :=
  ⟨rfl, nofun, nofun, .nil, nofun⟩

theorem of_plan_eq (h : q.Records orders tries) (same : q'.plan = q.plan) :
    q'.Records orders tries := by
  have arrivals : q'.arrivals = q.arrivals := congrArg Prod.snd same
  have planned : q'.pending.map Command.arrival = q.pending.map Command.arrival := by
    have h := congrArg (fun plan => plan.1.map Command.arrival) same
    simpa [plan, Function.comp_def] using h
  refine ⟨arrivals.trans h.arrivals, ?_, ?_, planned ▸ h.distinct, h.past⟩
  · intro c' isPending
    obtain ⟨c, isPending, same⟩ := exists_of_plan_eq same isPending
    rw [same]
    exact h.ordered c isPending
  · intro c' isPending
    obtain ⟨c, isPending, same⟩ := exists_of_plan_eq same isPending
    rw [same]
    exact h.counted c isPending

theorem arrival_lt (h : q.Records orders tries) {c : Command} (isPending : c ∈ q.pending) :
    c.arrival < orders.length :=
  (List.getElem?_eq_some_iff.mp (h.ordered c isPending)).1

theorem push (h : q.Records orders tries) (opcode : UInt16) (arguments : Arguments)
    (handle : Option Nat) :
    (q.push opcode arguments handle).Records (orders ++ [(opcode, arguments)]) tries := by
  have perm := enqueue_perm ⟨opcode, arguments, 0, .pending, q.arrivals, handle⟩ q.pending
  have cases {c : Command} (isPending : c ∈ (q.push opcode arguments handle).pending) :
      c = ⟨opcode, arguments, 0, .pending, q.arrivals, handle⟩ ∨ c ∈ q.pending :=
    List.mem_cons.mp (perm.mem_iff.mp isPending)
  refine ⟨?_, ?_, ?_, ?_, ?_⟩
  · rw [List.length_append, ← h.arrivals]
    rfl
  · intro c isPending
    rcases cases isPending with rfl | old
    · rw [h.arrivals]
      exact List.getElem?_concat_length
    · rw [List.getElem?_append_left (h.arrival_lt old)]
      exact h.ordered c old
  · intro c isPending
    rcases cases isPending with rfl | old
    · have untried : q.arrivals ∉ tries := fun tried =>
        Nat.lt_irrefl _ (h.arrivals ▸ h.past _ tried)
      exact (List.count_eq_zero.mpr untried).symm
    · exact h.counted c old
  · refine (perm.map Command.arrival).nodup_iff.mpr (List.nodup_cons.mpr ⟨?_, h.distinct⟩)
    intro isMember
    obtain ⟨c, isPending, same⟩ := List.mem_map.mp isMember
    exact Nat.lt_irrefl _ (h.arrivals ▸ same ▸ h.arrival_lt isPending)
  · intro arrival tried
    rw [List.length_append]
    exact Nat.lt_add_right 1 (h.past arrival tried)

theorem tick (h : q.Records orders tries) (delivered : Bool) :
    (q.tick delivered).1.Records orders (tries ++ (q.due?.map Command.arrival).toList) := by
  rw [Queue.tick.eq_def, due?, head?]
  cases pending : q.pending with
  | nil => simpa using h
  | cons c rest =>
    obtain ⟨arrivals, ordered, counted, distinct, past⟩ := h
    rw [pending] at ordered counted distinct
    obtain ⟨apart, distinct⟩ := List.nodup_cons.mp distinct
    obtain ⟨orderedHead, ordered⟩ := List.forall_mem_cons.mp ordered
    obtain ⟨countedHead, counted⟩ := List.forall_mem_cons.mp counted
    cases verdict : c.verdict? q.retries with
    | some v =>
      simp only [List.head?_cons, Option.bind_some, verdict, Option.isNone_some, Bool.false_eq_true,
        if_false, Option.map_none, Option.toList_none, List.append_nil]
      exact ⟨arrivals, ordered, counted, distinct, past⟩
    | none =>
      simp only [List.head?_cons, Option.bind_some, verdict, Option.isNone_none, if_true,
        Option.map_some, Option.toList_some]
      refine ⟨arrivals, List.forall_mem_cons.mpr ⟨orderedHead, ordered⟩,
        List.forall_mem_cons.mpr ⟨?_, fun d isRest => ?_⟩,
        List.nodup_cons.mpr ⟨apart, distinct⟩, ?_⟩
      · rw [List.count_append, ← countedHead, List.count_singleton_self]
      · have other : c.arrival ≠ d.arrival := fun same =>
          apart (same ▸ List.mem_map_of_mem isRest)
        rw [List.count_append, ← counted d isRest, List.count_singleton,
          if_neg (by simpa using other)]
        rfl
      · intro arrival tried
        rcases List.mem_append.mp tried with old | new
        · exact past arrival old
        · obtain rfl := List.mem_singleton.mp new
          exact (List.getElem?_eq_some_iff.mp orderedHead).1

end Records

end Queue

namespace Engine

def orders (e : Engine) : List Action → List (UInt16 × Arguments)
  | [] => []
  | action :: rest => (e.order? action).toList ++ (e.step action).orders rest

/-- The place among the orders of the command that an action makes an attempt to send. -/
def attempt? (e : Engine) : Action → Option Nat
  | .tick =>
    if e.ticks ∧ e.advancePhase.vehicle.phase = .ready then e.queue.due?.map Command.arrival
    else none
  | _ => none

def tries (e : Engine) : List Action → List Nat
  | [] => []
  | action :: rest => (e.attempt? action).toList ++ (e.step action).tries rest

variable {e : Engine} {ordered : List (UInt16 × Arguments)} {tried : List Nat}

theorem records_tick (before : e.queue.Records ordered tried) :
    (e.step .tick).queue.Records ordered (tried ++ (e.attempt? .tick).toList) := by
  rw [attempt?]
  rcases runTicks_one e with ⟨early, same⟩ | ⟨due, ticked⟩
  · rw [step, same, if_neg (by simp [early])]
    simpa using before
  · have dispatches := ticked.dispatches
    obtain ⟨_, _, _, _, _, same⟩ := ticked.rest
    rw [same] at dispatches
    rcases dispatches with ⟨ready, delivered, queue⟩ | ⟨notReady, queue⟩
    · rw [if_pos ⟨due, ready⟩, step, same, queue]
      exact before.tick delivered
    · rw [if_neg fun both => notReady both.2, step, same, queue]
      simpa using before

theorem records_step (before : e.queue.Records ordered tried) (action : Action) :
    (e.step action).queue.Records (ordered ++ (e.order? action).toList)
      (tried ++ (e.attempt? action).toList) := by
  by_cases tick : action = .tick
  · subst tick
    simpa [order?] using records_tick before
  · have noAttempt : e.attempt? action = none := attempt?.eq_2 e action tick
    rw [noAttempt, Option.toList_none, List.append_nil]
    cases order : e.order? action with
    | none =>
      rw [Option.toList_none, List.append_nil]
      exact before.of_plan_eq (plan_step tick order)
    | some ordered =>
      obtain ⟨handle, pushed⟩ := queue_of_order order
      rw [pushed]
      exact before.push _ _ handle

theorem records_steps (before : e.queue.Records ordered tried) (actions : List Action) :
    (e.steps actions).queue.Records (ordered ++ e.orders actions) (tried ++ e.tries actions) := by
  induction actions generalizing e ordered tried with
  | nil => simpa [orders, tries, steps] using before
  | cons action rest ih =>
    rw [orders, tries, ← List.append_assoc, ← List.append_assoc]
    exact ih (records_step before action)

/-- The commands that an action may send: the question for the capabilities, and the command whose
turn it is, as it was ordered.  The confirmation field counts the attempts made before. -/
inductive Commands (e : Engine) (action : Action) (ordered : List (UInt16 × Arguments))
    (tried : List Nat) : Outgoing → Prop
  | capabilities : e.advancePhase.vehicle.phase = .awaitingCapabilities →
    Commands e action ordered tried
      (.command Opcode.requestCapabilities Arguments.requestCapabilities 0)
  | ordered {place opcode arguments} : e.attempt? action = some place →
    ordered[place]? = some (opcode, arguments) →
    Commands e action ordered tried
      (.command opcode arguments (UInt8.ofNat (min (tried.count place) 255)))

theorem emits_orders (records : e.queue.Records ordered tried) (action : Action) :
    Emits (fun t => t.message.isCommand → e.Commands action ordered tried t.message) e
      (e.step action) := by
  refine (e.emits_commands_step action).mono ?_
  intro t justifies isCommand
  obtain ⟨rfl, due, justified⟩ := justifies isCommand
  generalize t.message = m at isCommand justified ⊢
  cases justified with
  | capabilities found => exact .capabilities found
  | parameters | parameter => cases isCommand
  | @queued c found isDue =>
    have isPending : c ∈ e.queue.pending := Queue.mem_pending_of_due? isDue
    rw [confirmation, records.counted c isPending]
    refine .ordered ?_ (records.ordered c isPending)
    rw [attempt?, if_pos ⟨due, found⟩]
    exact congrArg (Option.map Command.arrival) isDue

/-- Each frame that is put on the link decodes as a whole, to a packet of the engine under the
number of attempts to send that came before its own, and unpacks to what was meant for the vehicle
that is known at the time. -/
theorem emits_frames (c : EngineConfig) (receiver : Receiver) (actions : List Action)
    (action : Action) :
    let begun := start Dialect.builtin c receiver
    let e := begun.steps actions
    let earlier := (begun.attempts actions).length
    Numbered (e.step action) ∧
      Emits
        (fun t => (∃ p msg k, t.Bears c p msg
            ∧ (e.attempted action)[k]? = some ⟨t.target, t.message⟩ ∧ t.attempt = earlier + k
            ∧ p.header.sequence.toNat = (earlier + k) % 256)
          ∧ t.target = e.vehicle.telemetry.identity.getD ⟨0, 0⟩
          ∧ (t.message.isCommand →
            e.Commands action (begun.orders actions) (begun.tries actions) t.message))
        e (e.step action) := by
  intro begun e earlier
  have run := begun.tries_steps actions
  have acts := e.tries_step action
  have acquainted : Acquainted e := acquainted_steps Dialect.builtin c receiver actions
  have blank : begun.queue.Records [] [] := .empty _
  have records : e.queue.Records (begun.orders actions) (begun.tries actions) :=
    records_steps blank actions
  have numbered : Numbered e := run.numbered ⟨.nil, nofun⟩
  have count : e.outbound.attempts = earlier := run.attempts.trans (Nat.zero_add _)
  refine ⟨acts.numbered numbered, (acts.emits.and (emits_orders records action)).mono ?_⟩
  rintro t ⟨⟨prints, k, isTried, number⟩, command⟩
  obtain ⟨p, msg, bears⟩ := bears_of_prints run.kept.1 prints
  have configured : e.config = c := run.kept.2
  rw [configured] at bears
  rw [count] at number
  have target : t.target = e.target :=
    target_of_attempted acquainted (List.mem_of_getElem? isTried)
  exact ⟨⟨p, msg, k, bears, isTried, number, number ▸ bears.sequence⟩, target, command⟩

def centred : Action := .call (.engageOverride (Vector.replicate 8 1500) 0)

def jam : List Action :=
  List.replicate (outboundCapacity + 1) centred ++ [.call .drainOutbound]

/-- The attempt that found no room has spent its number. -/
theorem emits_frames_of_jam :
    let begun := start Dialect.builtin {} .slow
    let e := begun.steps jam
    (begun.attempts jam).length = 257 ∧ e.outbound.sent.length = 256
      ∧ ∃ t p msg, (e.step centred).outbound.sent = t :: e.outbound.sent ∧ t.Bears {} p msg
        ∧ p.header.sequence = 1 := by
  intro begun e
  have tried : (begun.attempts jam).length = 257 := by decide +kernel
  have lengths : e.outbound.sent.length = 256 ∧ (e.step centred).outbound.sent.length = 257 := by
    decide +kernel
  have framed : Numbered (e.step centred) ∧ Emits _ e (e.step centred) :=
    emits_frames {} .slow jam centred
  obtain ⟨-, new, sent, frames⟩ := framed
  have one : new.length = 1 := by
    have both := congrArg List.length sent
    rw [List.length_append, lengths.1, lengths.2] at both
    omega
  obtain ⟨t, rfl⟩ := List.length_eq_one_iff.mp one
  rw [List.singleton_append] at sent
  obtain ⟨⟨p, msg, k, bears, isTried, -, sequence⟩, -⟩ := frames t (List.mem_singleton_self t)
  have first : k < 1 := (List.getElem?_eq_some_iff.mp isTried).1
  refine ⟨tried, lengths.1, t, p, msg, sent, bears, UInt8.toNat.inj ?_⟩
  rw [sequence, tried, Nat.lt_one_iff.mp first]
  rfl

end Engine

end VehicleLink
