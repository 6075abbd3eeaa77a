import VehicleLink.Proofs.Engine.Effects

namespace VehicleLink.Engine

/-- What the handler may send in the state it finds; offline, nothing. -/
inductive Justifies (e : Engine) : Outgoing → Prop
  | capabilities : e.vehicle.phase = .awaitingCapabilities →
    Justifies e (.command Opcode.requestCapabilities Arguments.requestCapabilities 0)
  | parameters : e.vehicle.phase = .syncingParameters → Justifies e .requestParameters
  | parameter {index} : e.vehicle.phase = .syncingParameters → index ∈ e.params.missing →
    Justifies e (.requestParameter index)
  | queued {c} : e.vehicle.phase = .ready → c ∈ e.queue.due? →
    Justifies e (.command c.opcode c.arguments (confirmation c.attempts))

section Passes

variable (target : Target) (indices : List UInt16)

theorem requestMissing_eq (e : Engine) :
    ∃ outbound pass, e.requestMissing target indices = { e with outbound, handler.pass := pass }
      ∧ ∀ p ∈ pass, p.target = target ∧ p.rest ⊆ indices := by
  induction indices generalizing e with
  | nil => exact ⟨_, none, rfl, nofun⟩
  | cons index rest ih =>
    rw [requestMissing]
    split
    · exact ⟨_, none, rfl, nofun⟩
    · obtain ⟨outbound, sent⟩ := sendTo_eq e target (.requestParameter index)
      rw [sent]
      dsimp only
      split
      · obtain ⟨outbound', pass, same, within⟩ := ih { e with outbound }
        refine ⟨outbound', pass, same, fun p isPass => ?_⟩
        exact (within p isPass).imp_right (List.subset_cons_of_subset _)
      · refine ⟨outbound, some _, rfl, ?_⟩
        rintro p ⟨⟩
        exact ⟨rfl, List.subset_cons_self _ _⟩

def requested (e : Engine) : List Attempt :=
  if e.cancelled then []
  else
    (if e.config.paramRequestSpacing.toNat = 0 then indices else indices.take 1).map fun index =>
      ⟨target, .requestParameter index⟩

theorem of_mem_requested {e : Engine} {target : Target} {indices : List UInt16} {a : Attempt}
    (isTried : a ∈ e.requested target indices) :
    a.target = target ∧ ∃ index ∈ indices, a.message = .requestParameter index := by
  rw [requested] at isTried
  split at isTried
  · cases isTried
  · obtain ⟨index, isMember, rfl⟩ := List.mem_map.mp isTried
    refine ⟨rfl, index, ?_, rfl⟩
    split at isMember
    · exact isMember
    · exact List.mem_of_mem_take isMember

theorem tries_requestMissing (e : Engine) :
    Tries (e.requested target indices) e (e.requestMissing target indices) := by
  induction indices generalizing e with
  | nil => simpa [requested] using .rest rfl
  | cons index rest ih =>
    rw [requestMissing]
    split
    · next cancelled =>
      rw [requested, if_pos cancelled]
      exact .rest rfl
    · next running =>
      have first : Tries [⟨target, .requestParameter index⟩] e
          (e.sendTo target (.requestParameter index)).1 := .send e _ _
      obtain ⟨outbound, sent⟩ := sendTo_eq e target (.requestParameter index)
      rw [sent] at first ⊢
      rw [requested, if_neg running]
      dsimp only
      split
      · next unspaced =>
        have later := ih { e with outbound }
        rw [requested, if_neg running, if_pos unspaced] at later
        exact first.trans later
      · exact first.before rfl

theorem resumePass_eq (e : Engine) :
    ∃ outbound pass, e.resumePass = { e with outbound, handler.pass := pass }
      ∧ ∀ p' ∈ pass, ∃ p ∈ e.handler.pass, p'.target = p.target ∧ p'.rest ⊆ p.rest := by
  have idle : ∀ p' ∈ e.handler.pass,
      ∃ p ∈ e.handler.pass, p'.target = p.target ∧ p'.rest ⊆ p.rest :=
    fun p isPass => ⟨p, isPass, rfl, List.Subset.refl _⟩
  rw [resumePass]
  split
  · next p isPass =>
    split
    · obtain ⟨outbound, pass, same, within⟩ := requestMissing_eq p.target p.rest e
      exact ⟨outbound, pass, same, fun p' isPass' => ⟨p, isPass, within p' isPass'⟩⟩
    · exact ⟨_, _, rfl, idle⟩
  · exact ⟨_, _, rfl, idle⟩

def resumed (e : Engine) : List Attempt :=
  match e.handler.pass with
  | none => []
  | some p => if p.wake ≤ e.now then e.requested p.target p.rest else []

theorem of_mem_resumed {e : Engine} {a : Attempt} (isTried : a ∈ e.resumed) :
    ∃ p ∈ e.handler.pass, a.target = p.target
      ∧ ∃ index ∈ p.rest, a.message = .requestParameter index := by
  rw [resumed] at isTried
  split at isTried
  · cases isTried
  · next p isPass =>
    split at isTried
    · exact ⟨p, isPass, of_mem_requested isTried⟩
    · cases isTried

theorem tries_resumePass (e : Engine) : Tries e.resumed e e.resumePass := by
  rw [resumed, resumePass]
  cases e.handler.pass with
  | none => exact .refl e
  | some p =>
    dsimp only
    split
    · exact tries_requestMissing _ _ e
    · exact .refl e

end Passes

section Phases

variable (e : Engine)

theorem syncParameters_eq :
    ∃ params outbound pass,
      e.syncParameters = { e with params, outbound, handler.pass := pass }
        ∧ ∀ p ∈ pass, p ∈ e.handler.pass ∨ p.target = e.target ∧ p.rest ⊆ e.params.missing := by
  have asks (e : Engine) (params : Parameters) :
      ∃ outbound, ({ e with params }.send .requestParameters).1 = { e with params, outbound } := by
    obtain ⟨outbound, sent⟩ := sendTo_eq { e with params } e.target .requestParameters
    exact ⟨outbound, sent⟩
  rw [syncParameters]
  split
  · obtain ⟨outbound, sent⟩ := asks e (e.params.markStarted e.now)
    exact ⟨_, outbound, e.handler.pass, sent, fun p isPass => .inl isPass⟩
  · split
    · exact ⟨_, e.outbound, e.handler.pass, rfl, fun p isPass => .inl isPass⟩
    · split
      · obtain ⟨outbound, sent⟩ := asks e e.params
        exact ⟨_, outbound, e.handler.pass, sent, fun p isPass => .inl isPass⟩
      · obtain ⟨outbound, pass, same, within⟩ := requestMissing_eq e.target e.params.missing e
        exact ⟨_, outbound, pass, same, fun p isPass => .inr (within p isPass)⟩

/-- What is asked for while the parameters arrive: all of them, until their number is known, and
then those that are missing. -/
def lacked : List Attempt :=
  if !e.params.isStarted then [⟨e.target, .requestParameters⟩]
  else if (e.params.expire e.now e.config.paramTimeout.toNat).2.isSome then []
  else if e.params.total.isNone then [⟨e.target, .requestParameters⟩]
  else e.requested e.target e.params.missing

theorem tries_syncParameters : Tries e.lacked e e.syncParameters := by
  rw [lacked, syncParameters]
  split
  · exact .after (.send { e with params := e.params.markStarted e.now } _ _) rfl
  · cases e.params.expire e.now e.config.paramTimeout.toNat with
    | mk params given =>
      cases given with
      | some given => exact .rest rfl
      | none =>
        rw [if_neg (by simp)]
        dsimp only
        split
        · exact .send e _ _
        · exact tries_requestMissing _ _ e

theorem dispatch_cases :
    ∃ outbound delivered finished,
      e.dispatch = { e with outbound, queue := (e.queue.tick delivered).1, finished }
        ∧ Tries
          (e.queue.due?.toList.map fun c =>
            ⟨e.target, .command c.opcode c.arguments (confirmation c.attempts)⟩)
          e { e with outbound } := by
  rw [dispatch]
  cases due : e.queue.due? with
  | none =>
    dsimp only
    split
    · exact ⟨e.outbound, false, _, rfl, .refl e⟩
    · exact ⟨e.outbound, false, e.finished, rfl, .refl e⟩
  | some c =>
    generalize message : Outgoing.command c.opcode c.arguments (confirmation c.attempts) = m
    obtain ⟨outbound, sent⟩ := sendTo_eq e e.target m
    have tries : Tries [⟨e.target, m⟩] e (e.sendTo e.target m).1 := .send e _ _
    rw [sent] at tries
    generalize attempt : e.sendTo e.target m = attempted at sent
    obtain ⟨e', result⟩ := attempted
    obtain rfl : e' = { e with outbound } := sent
    simp only [send, message, attempt, Option.toList_some, List.map_cons, List.map_nil]
    split
    · exact ⟨outbound, result.isOk, _, rfl, tries⟩
    · exact ⟨outbound, result.isOk, e.finished, rfl, tries⟩

def asked : List Attempt :=
  match e.vehicle.phase with
  | .offline => []
  | .awaitingCapabilities =>
    [⟨e.target, .command Opcode.requestCapabilities Arguments.requestCapabilities 0⟩]
  | .syncingParameters => e.lacked
  | .ready => e.queue.due?.toList.map fun c =>
    ⟨e.target, .command c.opcode c.arguments (confirmation c.attempts)⟩

theorem justifies_of_mem_asked {e : Engine} {a : Attempt} (isTried : a ∈ e.asked) :
    a.target = e.target ∧ e.Justifies a.message := by
  rw [asked] at isTried
  split at isTried
  · cases isTried
  · next phase =>
    obtain rfl := List.mem_singleton.mp isTried
    exact ⟨rfl, .capabilities phase⟩
  · next phase =>
    have listed (isTried : a ∈ [⟨e.target, .requestParameters⟩]) :
        a.target = e.target ∧ e.Justifies a.message := by
      obtain rfl := List.mem_singleton.mp isTried
      exact ⟨rfl, .parameters phase⟩
    rw [lacked] at isTried
    split at isTried
    · exact listed isTried
    split at isTried
    · cases isTried
    split at isTried
    · exact listed isTried
    · obtain ⟨same, index, missing, asks⟩ := of_mem_requested isTried
      exact ⟨same, asks ▸ .parameter phase missing⟩
  · next phase =>
    obtain ⟨c, due, rfl⟩ := List.mem_map.mp isTried
    exact ⟨rfl, .queued phase (Option.mem_toList.mp due)⟩

theorem Tries.justified {f f' : Engine} (h : Tries e.asked f f') :
    Emits (e.Justifies ·.message) f f' := by
  let allows (_ : Target) (m : Outgoing) : Prop := e.Justifies m
  have allowed (a : Attempt) (isTried : a ∈ e.asked) : allows a.target a.message :=
    (justifies_of_mem_asked isTried).2
  exact h.emits_of allowed

/-- The engine acts on the phase it finds, and on nothing else of the vehicle. -/
structure Acts (e e' : Engine) : Prop where
  rest : ∃ params queue pass outbound finished,
    e' = { e with params, queue, handler := { e.handler with pass }, outbound, finished }
  dispatches : e.vehicle.phase = .ready ∧ (∃ delivered, e'.queue = (e.queue.tick delivered).1)
    ∨ e.vehicle.phase ≠ .ready ∧ e'.queue = e.queue
  pass : ∀ p ∈ e'.handler.pass, p ∈ e.handler.pass
    ∨ e.vehicle.phase = .syncingParameters ∧ p.target = e.target ∧ p.rest ⊆ e.params.missing
  tries : Tries e.asked e e'

theorem acts_actOnPhase : Acts e e.actOnPhase := by
  rw [actOnPhase]
  split
  · next phase =>
    exact ⟨⟨_, _, _, _, _, rfl⟩, .inr ⟨by simp [phase], rfl⟩, fun p isPass => .inl isPass,
      by simpa [asked, phase] using .refl e⟩
  · next phase =>
    let m : Outgoing := .command Opcode.requestCapabilities Arguments.requestCapabilities 0
    have tries : Tries e.asked e (e.send m).1 := by
      rw [asked, phase]
      exact .send e _ _
    obtain ⟨outbound, sent⟩ := sendTo_eq e e.target m
    rw [send, sent] at tries ⊢
    exact ⟨⟨_, _, _, _, _, rfl⟩, .inr ⟨by simp [phase], rfl⟩, fun p isPass => .inl isPass, tries⟩
  · next phase =>
    have tries : Tries e.asked e e.syncParameters := by
      rw [asked, phase]
      exact e.tries_syncParameters
    obtain ⟨params, outbound, pass, same, within⟩ := e.syncParameters_eq
    rw [same] at tries ⊢
    exact ⟨⟨_, _, _, _, _, rfl⟩, .inr ⟨by simp [phase], rfl⟩,
      fun p isPass => (within p isPass).imp_right fun sub => ⟨phase, sub⟩, tries⟩
  · next phase =>
    obtain ⟨outbound, delivered, finished, same, tries⟩ := e.dispatch_cases
    rw [same]
    refine ⟨⟨_, _, _, _, _, rfl⟩, .inl ⟨phase, delivered, rfl⟩, fun p isPass => .inl isPass, ?_⟩
    rw [asked, phase]
    exact tries.before rfl

end Phases

def ticks (e : Engine) : Bool :=
  e.handler.pass.isNone && e.handler.timer.any (·.due ≤ e.now)

structure Ticks (e e' : Engine) : Prop where
  rest : ∃ params queue handler outbound finished,
    e' = { e with
      vehicle := e.vehicle.advance e.params.isComplete
      params, queue, handler, outbound, finished }
  dispatches : e'.vehicle.phase = .ready ∧ (∃ delivered, e'.queue = (e.queue.tick delivered).1)
    ∨ e'.vehicle.phase ≠ .ready ∧ e'.queue = e.queue
  pass : ∀ p ∈ e'.handler.pass,
    e'.vehicle.phase = .syncingParameters ∧ p.target = e.target ∧ p.rest ⊆ e.params.missing
  tries : Tries e.advancePhase.asked e e'

theorem Ticks.emits {e e' : Engine} (h : Ticks e e') :
    Emits (e.advancePhase.Justifies ·.message) e e' :=
  h.tries.justified

theorem ticks_tickHandler (e : Engine) (t : Timer) (idle : e.handler.pass = none) :
    Ticks e (e.tickHandler t) := by
  have acts := acts_actOnPhase { e with handler.timer := some (t.next e.now) }.advancePhase
  rw [← tickHandler] at acts
  have tries : Tries e.advancePhase.asked e (e.tickHandler t) := acts.tries.after rfl
  have pass := acts.pass
  have dispatches := acts.dispatches
  obtain ⟨params, queue, rest, outbound, finished, same⟩ := acts.rest
  rw [same] at tries pass dispatches ⊢
  refine ⟨⟨_, _, _, _, _, rfl⟩, dispatches, ?_, tries⟩
  intro p isPass
  rcases pass p isPass with old | new
  -- A tick is not handled while a pass is under way, so none is left from before.
  · have old : p ∈ e.handler.pass := old
    rw [idle] at old
    cases old
  · exact new

theorem tick_cases (e : Engine) :
    (e.ticks = false ∧ e.runTicks 1 = e)
      ∨ ∃ t, e.ticks = true ∧ e.handler.pass = none ∧ e.runTicks 1 = e.tickHandler t := by
  rw [ticks, runTicks.eq_def]
  dsimp only
  split
  · next t idle timer =>
    rw [idle, timer]
    split
    · next due => exact .inr ⟨t, by simp [due], rfl, rfl⟩
    · next notDue => exact .inl ⟨by simpa using notDue, rfl⟩
  · next busy =>
    refine .inl ⟨?_, rfl⟩
    cases pass : e.handler.pass with
    | some p => rfl
    | none =>
      cases timer : e.handler.timer with
      | none => rfl
      | some t => exact absurd timer (busy t pass)

theorem runTicks_one (e : Engine) :
    (e.ticks = false ∧ e.runTicks 1 = e) ∨ (e.ticks = true ∧ Ticks e (e.runTicks 1)) := by
  rcases e.tick_cases with early | ⟨t, due, idle, same⟩
  · exact .inl early
  · exact .inr ⟨due, same ▸ ticks_tickHandler e t idle⟩

end VehicleLink.Engine
