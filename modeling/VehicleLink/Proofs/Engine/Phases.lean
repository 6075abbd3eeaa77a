import Mathlib.Logic.Relation
import VehicleLink.Proofs.Engine.Changes

namespace VehicleLink

open Relation (ReflTransGen)

/-- Every phase but the first needs the link, and the last two need the capabilities. -/
structure Vehicle.Consistent (v : Vehicle) : Prop where
  link : v.phase ≠ .offline → v.link = .up
  capabilities : v.phase = .syncingParameters ∨ v.phase = .ready → v.capabilities.isSome

namespace Vehicle

variable {v : Vehicle}

theorem consistent_start : start.Consistent :=
  ⟨fun online => absurd rfl online, fun late => late.elim nofun nofun⟩

theorem consistent_loseLink (v : Vehicle) : v.loseLink.Consistent :=
  ⟨fun online => absurd rfl online, fun late => late.elim nofun nofun⟩

theorem Consistent.advanceOnce (h : v.Consistent) (synced : Bool) :
    (v.advanceOnce synced).Consistent := by
  rw [Vehicle.advanceOnce, nextPhase]
  split
  · split
    · next up => exact ⟨fun _ => up, fun late => late.elim nofun nofun⟩
    · exact ⟨fun online => absurd rfl online, fun late => late.elim nofun nofun⟩
  · next found =>
    have up : v.link = .up := h.link (by simp [found])
    split
    · next known => exact ⟨fun _ => up, fun _ => known⟩
    · exact ⟨fun _ => up, fun late => late.elim nofun nofun⟩
  · next found =>
    have up : v.link = .up := h.link (by simp [found])
    exact ⟨fun _ => up, fun _ => h.capabilities (.inl found)⟩
  · next found =>
    have up : v.link = .up := h.link (by simp [found])
    exact ⟨fun _ => up, fun _ => h.capabilities (.inr found)⟩

theorem Consistent.advance (h : v.Consistent) (synced : Bool) : (v.advance synced).Consistent :=
  ((h.advanceOnce synced).advanceOnce synced).advanceOnce synced

theorem nextPhase_advance (v : Vehicle) (synced : Bool) :
    (v.advance synced).nextPhase synced = (v.advance synced).phase := by
  -- From the first phase to the last there are three moves, as many as there are rounds.
  obtain ⟨telemetry, phase, link, subsystems, capabilities⟩ := v
  by_cases up : link = .up <;> cases capabilities <;> cases synced <;> cases phase <;>
    simp [advance, Vehicle.advanceOnce, nextPhase, up]

theorem advance_advance (v : Vehicle) (synced : Bool) :
    (v.advance synced).advance synced = v.advance synced := by
  have once : (v.advance synced).advanceOnce synced = v.advance synced := by
    rw [Vehicle.advanceOnce, nextPhase_advance]
  rw [advance.eq_1 (v.advance synced), once, once, once]

end Vehicle

namespace Engine

/-- Does nothing that is the business of the handler: no attempt to send a command, and no
requests that are not those of a pass under way. -/
structure Spares (e e' : Engine) : Prop where
  unattempted : e.queue.Unattempted e'.queue
  pass : ∀ p' ∈ e'.handler.pass,
    ∃ p ∈ e.handler.pass, p'.target = p.target ∧ p'.rest ⊆ p.rest

structure Aside (e e' : Engine) : Prop extends Spares e e' where
  phase : e'.vehicle.phase = e.vehicle.phase
  link : e'.vehicle.link = e.vehicle.link
  known : e.vehicle.capabilities.isSome → e'.vehicle.capabilities.isSome

variable {e e' e'' : Engine}

theorem Spares.of_eq (queue : e'.queue = e.queue) (handler : e'.handler = e.handler) :
    Spares e e' :=
  ⟨.of_pending_eq (congrArg _ queue),
    fun p isPass => ⟨p, handler ▸ isPass, rfl, List.Subset.refl _⟩⟩

theorem Aside.of_eq (queue : e'.queue = e.queue) (handler : e'.handler = e.handler)
    (vehicle : e'.vehicle = e.vehicle) : Aside e e' :=
  { Spares.of_eq queue handler with
    phase := congrArg _ vehicle
    link := congrArg _ vehicle
    known := fun known => vehicle ▸ known }

theorem Aside.of_keeps {action : Action} (hears : Hears e e') (h : Keeps action e' e'') :
    Aside e e'' := by
  have known := hears.known
  have unattempted := Queue.Unattempted.of_plan_eq hears.plan
  obtain ⟨_, _, _, _, _, _, _, _, rfl⟩ := hears.rest
  exact {
    unattempted := unattempted.trans h.unattempted
    pass := h.pass
    phase := by rw [h.vehicle]
    link := by rw [h.vehicle]
    known := fun isKnown => h.vehicle ▸ known isKnown }

def LosesHeartbeat (e : Engine) : Prop :=
  ∃ event ∈ e.events.head?, heartbeatKind? e.registry = some event.kind ∧ event.health = .down

theorem vehicle_applyNext (e : Engine) :
    (e.LosesHeartbeat ∧ e.applyNext.vehicle = e.vehicle.loseLink)
      ∨ ∃ link subsystems, e.applyNext.vehicle = { e.vehicle with link, subsystems }
        ∧ (link = e.vehicle.link ∨ link = .up) := by
  rw [applyNext]
  split
  · next event events pending =>
    rw [applyHealth]
    split
    · next heartbeat =>
      split
      · exact .inr ⟨.up, _, rfl, .inr rfl⟩
      · next down => exact .inl ⟨⟨event, by simp [pending], heartbeat, down⟩, rfl⟩
      · exact .inr ⟨_, _, rfl, .inl rfl⟩
    · split
      · exact .inr ⟨_, _, rfl, .inl rfl⟩
      · exact .inr ⟨_, _, rfl, .inl rfl⟩
  · exact .inr ⟨_, _, rfl, .inl rfl⟩

theorem step_cases (e : Engine) (action : Action) :
    (action = .tick ∧ e.ticks = true ∧ Ticks e (e.step action))
      ∨ (action = .call .refresh ∧ e.step action = e.refresh)
      ∨ (action = .deliver ∧ e.step action = e.applyNext)
      ∨ Aside e (e.step action) := by
  rcases e.step_parts action with rfl | rfl | rfl | ⟨kinds, rfl⟩ | keeps
  · rcases runTicks_one e with ⟨-, same⟩ | ⟨due, ticked⟩
    · rw [step, same]
      exact .inr (.inr (.inr (.of_eq rfl rfl rfl)))
    · exact .inl ⟨rfl, due, ticked⟩
  · exact .inr (.inr (.inl ⟨rfl, rfl⟩))
  · exact .inr (.inl ⟨rfl, rfl⟩)
  · exact .inr (.inr (.inr (.of_eq rfl rfl rfl)))
  · exact .inr (.inr (.inr (.of_keeps (.receiveAll e _) keeps)))

theorem spares_step (e : Engine) {action : Action} (other : action ≠ .tick) :
    Spares e (e.step action) := by
  rcases e.step_cases action with ⟨tick, -⟩ | ⟨-, same⟩ | ⟨-, same⟩ | aside
  · exact absurd tick other
  · rw [same]
    exact .of_eq rfl rfl
  · obtain ⟨_, _, _, applied⟩ := e.applyNext_eq
    rw [same, applied]
    exact .of_eq rfl rfl
  · exact aside.toSpares

inductive Moves (e : Engine) : Action → Phase → Phase → Prop
  | online : e.vehicle.link = .up → Moves e .tick .offline .awaitingCapabilities
  | informed : e.vehicle.capabilities.isSome →
    Moves e .tick .awaitingCapabilities .syncingParameters
  | synced : e.params.isComplete → Moves e .tick .syncingParameters .ready
  | refreshed : Moves e (.call .refresh) .ready .syncingParameters
  | lost {phase} : e.LosesHeartbeat → Moves e .deliver phase .offline

theorem moves_nextPhase (e : Engine) (phase : Phase) :
    ReflTransGen (e.Moves .tick) phase
      ({ e.vehicle with phase }.nextPhase e.params.isComplete) := by
  cases phase with
  | offline =>
    dsimp only [Vehicle.nextPhase]
    split
    · next up => exact .single (.online up)
    · exact .refl
  | awaitingCapabilities =>
    dsimp only [Vehicle.nextPhase]
    split
    · next known => exact .single (.informed known)
    · exact .refl
  | syncingParameters =>
    dsimp only [Vehicle.nextPhase]
    split
    · next complete => exact .single (.synced complete)
    · exact .refl
  | ready => exact .refl

theorem moves_advancePhase (e : Engine) :
    ReflTransGen (e.Moves .tick) e.vehicle.phase e.advancePhase.vehicle.phase :=
  ((e.moves_nextPhase _).trans (e.moves_nextPhase _)).trans (e.moves_nextPhase _)

theorem moves_step (e : Engine) (action : Action) :
    ReflTransGen (e.Moves action) e.vehicle.phase (e.step action).vehicle.phase := by
  rcases e.step_cases action with ⟨rfl, -, ticked⟩ | ⟨rfl, same⟩ | ⟨rfl, same⟩ | aside
  · obtain ⟨_, _, _, _, _, same⟩ := ticked.rest
    rw [same]
    exact e.moves_advancePhase
  · rw [same, refresh]
    dsimp only
    split
    · next ready =>
      rw [ready]
      exact .single .refreshed
    · exact .refl
  · rw [same]
    rcases e.vehicle_applyNext with ⟨lost, scrubbed⟩ | ⟨_, _, kept, -⟩
    · rw [scrubbed]
      exact .single (.lost lost)
    · rw [kept]
  · rw [aside.phase]

theorem consistent_step (e : Engine) (action : Action) (h : e.vehicle.Consistent) :
    (e.step action).vehicle.Consistent := by
  rcases e.step_cases action with ⟨rfl, -, ticked⟩ | ⟨rfl, same⟩ | ⟨rfl, same⟩ | aside
  · obtain ⟨_, _, _, _, _, same⟩ := ticked.rest
    rw [same]
    exact h.advance _
  · rw [same, refresh]
    dsimp only
    split
    · next ready =>
      exact ⟨fun _ => h.link (by simp [ready]), fun _ => h.capabilities (.inr ready)⟩
    · exact h
  · rw [same]
    rcases e.vehicle_applyNext with ⟨-, scrubbed⟩ | ⟨link, _, kept, same | up⟩
    · rw [scrubbed]
      exact e.vehicle.consistent_loseLink
    · rw [kept, same]
      exact ⟨h.link, h.capabilities⟩
    · rw [kept, up]
      exact ⟨fun _ => rfl, h.capabilities⟩
  · refine ⟨fun online => ?_, fun late => ?_⟩
    · rw [aside.phase] at online
      exact aside.link.trans (h.link online)
    · rw [aside.phase] at late
      exact aside.known (h.capabilities late)

def Dispatches (e : Engine) (action : Action) : Prop :=
  action = .tick ∧ e.ticks = true ∧ e.advancePhase.vehicle.phase = .ready

theorem unattempted_step (e : Engine) {action : Action} (other : ¬ e.Dispatches action) :
    e.queue.Unattempted (e.step action).queue := by
  by_cases tick : action = .tick
  · subst tick
    rcases runTicks_one e with ⟨-, same⟩ | ⟨due, ticked⟩
    · rw [step, same]
      exact .refl _
    · rcases ticked.dispatches with ⟨ready, -⟩ | ⟨-, same⟩
      · obtain ⟨_, _, _, _, _, same⟩ := ticked.rest
        rw [same] at ready
        exact absurd ⟨rfl, due, ready⟩ other
      · exact .of_pending_eq (congrArg _ same)
  · exact (e.spares_step tick).unattempted

theorem emits_commands_step (e : Engine) (action : Action) :
    Emits
      (fun t => t.message.isCommand →
        action = .tick ∧ e.ticks = true ∧ e.advancePhase.Justifies t.message)
      e (e.step action) := by
  let allows (_ : Target) (m : Outgoing) : Prop :=
    m.isCommand → action = .tick ∧ e.ticks = true ∧ e.advancePhase.Justifies m
  have allowed (a : Attempt) (isTried : a ∈ e.attempted action) : allows a.target a.message := by
    intro isCommand
    cases Prompts.of_mem isTried with
    | tick due justified => exact ⟨rfl, due, justified⟩
    | _ => cases isCommand
  exact (e.tries_step action).emits_of allowed

structure PhaseSafe (e : Engine) : Prop where
  consistent : e.vehicle.Consistent
  moves : ∀ action,
    ReflTransGen (e.Moves action) e.vehicle.phase (e.step action).vehicle.phase
  advanced : e.advancePhase.advancePhase = e.advancePhase
  attempts : ∀ action, ¬ e.Dispatches action → e.queue.Unattempted (e.step action).queue
  commands : ∀ action, Emits
    (fun t => t.message.isCommand →
      action = .tick ∧ e.ticks = true ∧ e.advancePhase.Justifies t.message)
    e (e.step action)

theorem phaseSafe_of_consistent {e : Engine} (h : e.vehicle.Consistent) : e.PhaseSafe where
  consistent := h
  moves := e.moves_step
  advanced := congrArg (fun vehicle => { e with vehicle }) (e.vehicle.advance_advance _)
  attempts := fun _ other => e.unattempted_step other
  commands := e.emits_commands_step

section Runs

variable (r : Registry) (c : EngineConfig) (receiver : Receiver)

theorem consistent_steps (actions : List Action) :
    ((start r c receiver).steps actions).vehicle.Consistent :=
  steps_induction (P := (·.vehicle.Consistent)) consistent_step Vehicle.consistent_start actions

theorem phaseSafe_steps (actions : List Action) : ((start r c receiver).steps actions).PhaseSafe :=
  phaseSafe_of_consistent (consistent_steps r c receiver actions)

theorem phaseSafe_run (requests : List Request) :
    ((launch r c receiver).run requests).PhaseSafe := by
  obtain ⟨actions, same⟩ := Reaches.launch r c receiver requests
  rw [← same]
  exact phaseSafe_of_consistent (consistent_steps r c receiver actions)

end Runs

end Engine

end VehicleLink
