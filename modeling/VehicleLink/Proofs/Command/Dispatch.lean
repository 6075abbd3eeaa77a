import VehicleLink.Proofs.Command.Draining
import VehicleLink.Proofs.Command.Order

/-! The order in which commands are dealt with.  Each tick takes the first of those with the lowest
opcode, so commands of one opcode leave in the order in which they came, and those that wait
together leave as a stable sort by opcode has them. -/

namespace VehicleLink

def Command.place (c : Command) : UInt16 × Nat := (c.opcode, c.arrival)

namespace Queue

def Foremost (q : Queue) (c : Command) : Prop :=
  c ∈ q.pending ∧ ∀ d ∈ q.pending, d = c ∨ c.Precedes d

theorem Ordered.foremost {q : Queue} {c : Command} {rest : List Command} (h : q.Ordered)
    (pending : q.pending = c :: rest) : q.Foremost c := by
  have precedes := h.precedes
  rw [pending] at precedes
  refine ⟨by simp [pending], fun d isPending => ?_⟩
  rw [pending] at isPending
  exact (List.mem_cons.mp isPending).imp_right (List.rel_of_pairwise_cons precedes)

namespace Session

def departure? (s : Session) : Action → Option Nat
  | .tick delivered =>
    if s.closed then none else (s.queue.tick delivered).2.2.map Command.arrival
  | _ => none

def departures (s : Session) : List Action → List Nat
  | [] => []
  | action :: rest => (s.departure? action).toList ++ departures (s.step action).1 rest

theorem departures_append (s : Session) (first rest : List Action) :
    s.departures (first ++ rest) = s.departures first ++ (s.run first).departures rest := by
  induction first generalizing s with
  | nil => rfl
  | cons action first ih =>
    rw [List.cons_append, departures, departures, ih, List.append_assoc]
    rfl

section Steps

variable {s : Session} {action : Action} {c : Command} {rest : List Command} {verdict : Tick}
  {delivered : Bool}

theorem departure?_of_closed (isClosed : s.closed = true) : s.departure? action = none := by
  cases action <;> simp [departure?, isClosed]

theorem departure?_of_idle (pending : s.queue.pending = []) :
    s.departure? (.tick delivered) = none := by
  simp [departure?, Queue.tick, pending]

theorem departure?_of_settled (isOpen : s.closed = false) (pending : s.queue.pending = c :: rest)
    (ends : c.verdict? s.queue.retries = some verdict) :
    s.departure? (.tick delivered) = some c.arrival := by
  simp [departure?, isOpen, Queue.tick, pending, ends]

theorem departure?_of_sent (pending : s.queue.pending = c :: rest)
    (goes : c.verdict? s.queue.retries = none) : s.departure? (.tick delivered) = none := by
  simp [departure?, Queue.tick, pending, goes]

theorem resolved_eq_departure (goesOn : action ≠ .close) :
    (s.step action).1.resolved.map Resolution.arrival =
      (s.departure? action).toList ++ s.resolved.map Resolution.arrival := by
  generalize moved : (s.step action).1 = s'
  have move : s.Move action s' := moved ▸ s.move_step action
  cases move with
  | closed isClosed => rw [departure?_of_closed isClosed]; rfl
  | idle _ pending => rw [departure?_of_idle pending]; rfl
  | settled isOpen pending ends => rw [departure?_of_settled isOpen pending ends]; rfl
  | sent _ pending goes => rw [departure?_of_sent pending goes]; rfl
  | cancelled => exact absurd rfl goesOn
  | pushed | answered | unmatched | forgotten | released => rfl

theorem departure_isPrefix (noPush : pushed [action] = []) :
    (s.departure? action).toList ++ (s.step action).1.queue.pending.map Command.arrival <+:
      s.queue.pending.map Command.arrival := by
  generalize moved : (s.step action).1 = s'
  have move : s.Move action s' := moved ▸ s.move_step action
  cases move with
  | closed isClosed => rw [departure?_of_closed isClosed]; exact List.prefix_rfl
  | pushed => cases noPush
  | answered _ pending => simp [departure?, pending]
  | unmatched => exact List.prefix_rfl
  | idle _ pending => rw [departure?_of_idle pending]; exact List.prefix_rfl
  | settled isOpen pending ends => simp [departure?_of_settled isOpen pending ends, pending]
  | sent _ pending goes => simp [departure?_of_sent pending goes, pending]
  | forgotten => exact List.prefix_rfl
  | released => exact List.prefix_rfl
  | cancelled => exact List.nil_prefix

end Steps

theorem departures_of_closed {s : Session} (isClosed : s.closed = true) (actions : List Action) :
    s.departures actions = [] := by
  induction actions with
  | nil => rfl
  | cons action rest ih =>
    have same : (s.step action).1 = s := by simp [step, isClosed]
    rw [departures, departure?_of_closed isClosed, same, ih]
    rfl

theorem resolved_eq_departures {s : Session} {actions : List Action} (goesOn : .close ∉ actions) :
    (s.run actions).resolved.map Resolution.arrival =
      (s.departures actions).reverse ++ s.resolved.map Resolution.arrival := by
  induction actions generalizing s with
  | nil => rfl
  | cons action rest ih =>
    obtain ⟨first, later⟩ := not_or.mp (mt List.mem_cons.mpr goesOn)
    have now := resolved_eq_departure (s := s) (Ne.symm first)
    have single (arrival? : Option Nat) : arrival?.toList.reverse = arrival?.toList := by
      cases arrival? <;> rfl
    rw [departures, List.reverse_append, single, List.append_assoc, ← now]
    exact ih later

theorem departures_isPrefix (s : Session) {actions : List Action} (noPush : pushed actions = []) :
    s.departures actions <+: s.queue.pending.map Command.arrival := by
  induction actions generalizing s with
  | nil => exact List.nil_prefix
  | cons action rest ih =>
    rw [pushed_cons, List.append_eq_nil_iff] at noPush
    have later := ih (s.step action).1 noPush.2
    exact ((List.prefix_append_right_inj _).mpr later).trans (departure_isPrefix noPush.1)

inductive Serves (s s' : Session) (c : Command) : Prop
  | sends : s'.sent = c :: s.sent → s'.resolved = s.resolved →
    s'.queue.pending.Perm ({ c with attempts := c.attempts + 1 } :: s.queue.pending.erase c) →
    Serves s s' c
  | removes (outcome : Outcome) : s'.sent = s.sent →
    s'.resolved = ⟨c.arrival, outcome⟩ :: s.resolved →
    s'.queue.pending = s.queue.pending.erase c → Serves s s' c

theorem serves_foremost {s : Session} (ordered : s.queue.Ordered) (isOpen : s.closed = false)
    (delivered : Bool) (waiting : s.queue.pending ≠ []) :
    ∃ c, s.queue.Foremost c ∧ s.Serves (s.step (.tick delivered)).1 c := by
  have move : s.Move (.tick delivered) (s.step (.tick delivered)).1 := s.move_step _
  generalize (s.step (.tick delivered)).1 = s' at move ⊢
  cases move with
  | closed isClosed => cases isOpen.symm.trans isClosed
  | idle _ pending => exact absurd pending waiting
  | settled _ pending =>
    refine ⟨_, ordered.foremost pending, .removes _ rfl rfl ?_⟩
    rw [pending, List.erase_cons_head]
  | sent _ pending =>
    refine ⟨_, ordered.foremost pending, .sends rfl rfl ?_⟩
    rw [pending, List.erase_cons_head]

/-- Whoever leaves comes after all those of the same opcode that were pushed before. -/
def InTurn (opcodes : List UInt16) (left : List Nat) : Prop :=
  ∀ i j opcode, i < j → opcodes[i]? = some opcode → opcodes[j]? = some opcode → j ∈ left →
    [i, j].Sublist left

namespace InTurn

variable {opcodes : List UInt16} {left : List Nat}

theorem append (h : InTurn opcodes left) (known : ∀ j ∈ left, j < opcodes.length)
    (more : List UInt16) : InTurn (opcodes ++ more) left := by
  intro i j opcode earlier first second isLeft
  have bound := known j isLeft
  rw [List.getElem?_append_left (earlier.trans bound)] at first
  rw [List.getElem?_append_left bound] at second
  exact h i j opcode earlier first second isLeft

theorem concat {next : Nat} (h : InTurn opcodes left)
    (before : ∀ i < next, opcodes[i]? = opcodes[next]? → i ∈ left) :
    InTurn opcodes (left ++ [next]) := by
  intro i j opcode earlier first second isLeft
  rcases List.mem_append.mp isLeft with old | last
  · exact (h i j opcode earlier first second old).trans (List.sublist_append_left _ _)
  · obtain rfl := List.mem_singleton.mp last
    have gone : i ∈ left := before i earlier (first.trans second.symm)
    exact (List.singleton_sublist.mpr gone).append (List.Sublist.refl [j])

end InTurn

section Turns

variable {s : Session} {retries : Nat} {opcodes : List UInt16} {log : List Receipt}

theorem Enrolled.resolved_lt (h : s.Enrolled retries opcodes log) :
    ∀ j ∈ s.resolved.map Resolution.arrival, j < opcodes.length := by
  intro j isResolved
  exact List.mem_range.mp (h.once.mem_iff.mp (List.mem_append_right _ isResolved))

theorem departed_of_earlier (h : s.Enrolled retries opcodes log) (ordered : s.queue.Ordered)
    {c : Command} {rest : List Command} (pending : s.queue.pending = c :: rest) {i : Nat}
    (earlier : i < c.arrival) (same : opcodes[i]? = opcodes[c.arrival]?) :
    i ∈ s.resolved.map Resolution.arrival := by
  have foremost := ordered.foremost pending
  have known : opcodes[c.arrival]? = some c.opcode := h.opcode c foremost.1
  have bound := (List.getElem?_eq_some_iff.mp (same.trans known)).1
  have somewhere := h.once.mem_iff.mpr (List.mem_range.mpr bound)
  rcases List.mem_append.mp somewhere with waits | gone
  -- If it were still pending, it would go before the head.
  · obtain ⟨d, isPending, rfl⟩ := List.mem_map.mp waits
    have opcode : d.opcode = c.opcode :=
      Option.some.inj ((h.opcode d isPending).symm.trans (same.trans known))
    rcases foremost.2 d isPending with rfl | lower | ⟨-, later⟩
    · exact absurd earlier (Nat.lt_irrefl _)
    · exact absurd (opcode ▸ lower) (UInt16.lt_irrefl _)
    · exact absurd earlier (Nat.lt_asymm later)
  · exact gone

theorem Enrolled.inTurn_step (h : s.Enrolled retries opcodes log) (ordered : s.queue.Ordered)
    (inTurn : InTurn opcodes (s.resolved.map Resolution.arrival).reverse) {action : Action}
    (goesOn : action ≠ .close) :
    InTurn (opcodes ++ pushed [action])
      ((s.step action).1.resolved.map Resolution.arrival).reverse := by
  generalize moved : (s.step action).1 = s'
  have move : s.Move action s' := moved ▸ s.move_step action
  cases move with
  | settled _ pending =>
    rw [List.map_cons, List.reverse_cons, show pushed [Action.tick _] = [] from rfl,
      List.append_nil]
    refine inTurn.concat fun i earlier same => List.mem_reverse.mpr ?_
    exact departed_of_earlier h ordered pending earlier same
  | cancelled => exact absurd rfl goesOn
  | _ =>
    exact inTurn.append (fun j isResolved => h.resolved_lt j (List.mem_reverse.mp isResolved)) _

theorem Enrolled.inTurn_run (h : s.Enrolled retries opcodes log) (ordered : s.queue.Ordered)
    (inTurn : InTurn opcodes (s.resolved.map Resolution.arrival).reverse) {actions : List Action}
    (goesOn : .close ∉ actions) :
    InTurn (opcodes ++ pushed actions)
      ((s.run actions).resolved.map Resolution.arrival).reverse := by
  induction actions generalizing s opcodes log with
  | nil =>
    rw [show pushed [] = [] from rfl, List.append_nil]
    exact inTurn
  | cons action rest ih =>
    obtain ⟨first, later⟩ := not_or.mp (mt List.mem_cons.mpr goesOn)
    rw [pushed_cons, ← List.append_assoc]
    exact ih (h.step (Ne.symm first)) (ordered_step ordered action)
      (h.inTurn_step ordered inTurn (Ne.symm first)) later

end Turns

theorem departures_eq_resolved (retries : Nat) {actions : List Action} (goesOn : .close ∉ actions) :
    (start retries).departures actions =
      (((start retries).run actions).resolved.map Resolution.arrival).reverse := by
  rw [resolved_eq_departures goesOn, show (start retries).resolved = [] from rfl, List.map_nil,
    List.append_nil, List.reverse_reverse]

theorem inTurn_of_goesOn (retries : Nat) {actions : List Action} (goesOn : .close ∉ actions) :
    InTurn (pushed actions) ((start retries).departures actions) := by
  rw [departures_eq_resolved retries goesOn, ← List.nil_append (pushed actions)]
  exact (enrolled_start retries).inTurn_run (.empty retries) (by simp [InTurn, start]) goesOn

theorem inTurn_departures (retries : Nat) (actions : List Action) :
    InTurn (pushed actions) ((start retries).departures actions) := by
  by_cases closes : .close ∈ actions
  · -- Only what happens before the end matters.
    obtain ⟨before, after, rfl, goesOn⟩ := List.eq_append_cons_of_mem closes
    have enrolled := (enrolled_start retries).run goesOn
    rw [List.nil_append] at enrolled
    have isClosed : (((start retries).run before).step .close).1.closed = true := by
      simp [step, enrolled.isOpen, close]
    rw [departures_append, departures, departures_of_closed isClosed, pushed_append]
    simp only [departure?, Option.toList_none, List.append_nil]
    refine (inTurn_of_goesOn retries goesOn).append (fun j hasLeft => ?_) _
    rw [departures_eq_resolved retries goesOn, List.mem_reverse] at hasLeft
    exact enrolled.resolved_lt j hasLeft
  · exact inTurn_of_goesOn retries closes

end Session

def opcodeLe (a b : UInt16 × Nat) : Bool := a.1 ≤ b.1

theorem opcodeLe_trans (a b c : UInt16 × Nat) (h : opcodeLe a b) (h' : opcodeLe b c) :
    opcodeLe a c :=
  decide_eq_true (UInt16.le_trans (of_decide_eq_true h) (of_decide_eq_true h'))

theorem opcodeLe_total (a b : UInt16 × Nat) : opcodeLe a b || opcodeLe b a := by
  simpa [opcodeLe] using UInt16.le_total a.1 b.1

/-- The arrivals of commands that are pushed one after another, of which `start` is the first, as a
stable sort by opcode has them. -/
def byOpcode (opcodes : List UInt16) (start : Nat) : List Nat :=
  ((opcodes.zipIdx start).mergeSort opcodeLe).map Prod.snd

def Sooner (a b : UInt16 × Nat) : Prop := a.1 < b.1 ∨ a.1 = b.1 ∧ a.2 < b.2

theorem Sooner.asymm {a b : UInt16 × Nat} (h : Sooner a b) : ¬ Sooner b a := by
  rintro (lower' | ⟨same', earlier'⟩)
  · rcases h with lower | ⟨same, -⟩
    · exact UInt16.lt_asymm lower lower'
    · exact UInt16.lt_irrefl _ (same ▸ lower')
  · rcases h with lower | ⟨-, earlier⟩
    · exact UInt16.lt_irrefl _ (same' ▸ lower)
    · exact Nat.lt_asymm earlier earlier'

section Places

variable (places : List (UInt16 × Nat))

theorem filter_mergeSort (opcode : UInt16) :
    (places.mergeSort opcodeLe).filter (·.1 = opcode) = places.filter (·.1 = opcode) := by
  have level : (places.filter (·.1 = opcode)).Pairwise (opcodeLe · ·) := by
    refine List.pairwise_of_forall_mem_list fun a isMember b isMember' => ?_
    simp only [List.mem_filter, decide_eq_true_eq] at isMember isMember'
    exact decide_eq_true (UInt16.le_of_eq (isMember.2.trans isMember'.2.symm))
  have kept := List.sublist_mergeSort opcodeLe_trans opcodeLe_total level List.filter_sublist
  have kept' := kept.filter (·.1 = opcode)
  rw [List.filter_filter] at kept'
  simp only [Bool.and_self] at kept'
  exact (kept'.eq_of_length ((List.mergeSort_perm places _).filter _).length_eq.symm).symm

theorem sooner_mergeSort (inOrder : places.Pairwise (·.2 < ·.2)) :
    (places.mergeSort opcodeLe).Pairwise Sooner := by
  have sorted := List.pairwise_mergeSort opcodeLe_trans opcodeLe_total places
  refine List.pairwise_iff_forall_sublist.mpr fun {a b} isSublist => ?_
  have le : a.1 ≤ b.1 :=
    of_decide_eq_true (List.pairwise_iff_forall_sublist.mp sorted isSublist)
  rcases UInt16.lt_or_eq_of_le le with lower | same
  · exact .inl lower
  · have level := isSublist.filter (·.1 = b.1)
    rw [filter_mergeSort, List.filter_eq_self.mpr (by simp [same])] at level
    exact .inr ⟨same, List.pairwise_iff_forall_sublist.mp inOrder (level.trans List.filter_sublist)⟩

end Places

namespace Session

def pushes (orders : List (UInt16 × Arguments)) : List Action :=
  orders.map fun order => .push order.1 order.2

theorem place_run_pushes {s : Session} (isOpen : s.closed = false)
    (orders : List (UInt16 × Arguments)) :
    ((s.run (pushes orders)).queue.pending.map Command.place).Perm
      (s.queue.pending.map Command.place ++ (orders.map Prod.fst).zipIdx s.queue.arrivals) := by
  induction orders generalizing s with
  | nil => simp [pushes, run]
  | cons order rest ih =>
    have queued : (s.step (.push order.1 order.2)).1 =
        { s with queue := s.queue.push order.1 order.2 none } := by simp [step, isOpen]
    have later := ih (s := (s.step (.push order.1 order.2)).1) (by rw [queued]; exact isOpen)
    refine later.trans ?_
    rw [queued]
    refine (((enqueue_perm _ _).map Command.place).append_right _).trans ?_
    exact List.perm_middle.symm

theorem pairwise_zipIdx (opcodes : List UInt16) (start : Nat) :
    (opcodes.zipIdx start).Pairwise (·.2 < ·.2) := by
  rw [← List.pairwise_map, List.zipIdx_map_snd]
  exact List.pairwise_lt_range'

theorem pending_run_pushes {s : Session} (isOpen : s.closed = false)
    (drained : s.queue.pending = []) (orders : List (UInt16 × Arguments)) :
    (s.run (pushes orders)).queue.pending.map Command.arrival =
      byOpcode (orders.map Prod.fst) s.queue.arrivals := by
  have ordered : s.queue.Ordered := ⟨by simp [drained], by simp [drained], by simp [drained]⟩
  have sooner : ((s.run (pushes orders)).queue.pending.map Command.place).Pairwise Sooner :=
    List.pairwise_map.mpr (ordered_run ordered (pushes orders)).precedes
  have perm := place_run_pushes isOpen orders
  rw [drained, List.map_nil, List.nil_append] at perm
  have same := (perm.trans (List.mergeSort_perm _ _).symm).eq_of_pairwise
    (fun a b _ _ first second => absurd second first.asymm) sooner
    (sooner_mergeSort _ (pairwise_zipIdx (orders.map Prod.fst) s.queue.arrivals))
  rw [byOpcode, ← same, List.map_map]
  rfl

theorem departures_pushes (s : Session) (orders : List (UInt16 × Arguments)) :
    s.departures (pushes orders) = [] := by
  induction orders generalizing s with
  | nil => rfl
  | cons order rest ih => exact ih _

theorem departures_isPrefix_byOpcode {s : Session} (drained : s.queue.pending = [])
    (orders : List (UInt16 × Arguments)) {later : List Action} (noPush : pushed later = []) :
    s.departures (pushes orders ++ later) <+: byOpcode (orders.map Prod.fst) s.queue.arrivals := by
  cases isOpen : s.closed with
  | true =>
    rw [departures_of_closed isOpen]
    exact List.nil_prefix
  | false =>
    rw [departures_append, departures_pushes, List.nil_append,
      ← pending_run_pushes isOpen drained orders]
    exact departures_isPrefix _ noPush

structure InOrder (s : Session) (opcodes : List UInt16) (left : List Nat) : Prop where
  idle : s.queue.pending = [] → ∀ delivered, (s.step (.tick delivered)).1 = s
  foremost : s.queue.pending ≠ [] → ∀ delivered,
    ∃ c, s.queue.Foremost c ∧ s.Serves (s.step (.tick delivered)).1 c
  inTurn : InTurn opcodes left
  stable : s.queue.pending = [] → ∀ orders later, pushed later = [] →
    s.departures (pushes orders ++ later) <+: byOpcode (orders.map Prod.fst) s.queue.arrivals

theorem inOrder_run (retries : Nat) (actions : List Action) :
    ((start retries).run actions).InOrder (pushed actions)
      ((start retries).departures actions) := by
  have settled : (start retries).Settled := nofun
  refine ⟨fun none delivered => ?_, fun waiting delivered => ?_, inTurn_departures retries actions,
    fun drained orders later noPush => departures_isPrefix_byOpcode drained orders noPush⟩
  · generalize (start retries).run actions = s at none
    have move : s.Move (.tick delivered) (s.step (.tick delivered)).1 := s.move_step _
    generalize (s.step (.tick delivered)).1 = s' at move ⊢
    cases move with
    | closed => rfl
    | idle => rfl
    | settled _ pending | sent _ pending => cases none.symm.trans pending
  · have isOpen : ((start retries).run actions).closed = false :=
      Bool.eq_false_iff.mpr fun isClosed => waiting (settled.run actions isClosed)
    exact serves_foremost (ordered_run (.empty retries) actions) isOpen delivered waiting

def crowd : List (UInt16 × Arguments) :=
  [300, 176, 300].map fun opcode => (opcode, .replicate 7 .zero)

def serving : List Action :=
  [.tick true, .acknowledge 176 .accepted, .tick true, .tick false, .acknowledge 300 .denied,
    .tick true, .tick true]

theorem inOrder_crowd :
    pushed serving = [] ∧ (start 0).departures (pushes crowd ++ serving) = [1, 0]
      ∧ (start 0).departures (pushes crowd ++ serving) <+: byOpcode [300, 176, 300] 0
      ∧ byOpcode [300, 176, 300] 0 = [1, 0, 2] :=
  ⟨rfl, by decide, (inOrder_run 0 []).stable rfl crowd serving rfl,
    (pending_run_pushes (s := start 0) rfl rfl crowd).symm.trans (by decide)⟩

end Session

end Queue

end VehicleLink
