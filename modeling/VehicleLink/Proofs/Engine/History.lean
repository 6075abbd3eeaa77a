import VehicleLink.Proofs.Engine.Passes
import VehicleLink.Proofs.Vehicle.Memory

namespace VehicleLink.Engine

def memory (e : Engine) : Memory := ⟨e.params, e.vehicle.capabilities⟩

def unpacked (r : Registry) (items : List Item) : List Message :=
  items.filterMap fun item => item.toOption.bind fun f => (Codec.unpack r f.packet).toOption

theorem unpacked_cons (r : Registry) (item : Item) (rest : List Item) :
    unpacked r (item :: rest) = unpacked r [item] ++ unpacked r rest :=
  List.filterMap_append (l := [item])

def round (e : Engine) : List Occurrence :=
  if e.vehicle.phase = .syncingParameters then
    if !e.params.isStarted then [.started e.now]
    else if (e.params.expire e.now e.config.paramTimeout.toNat).2.isSome then [.expired] else []
  else []

instance (e : Engine) : Decidable e.LosesHeartbeat :=
  inferInstanceAs (Decidable (∃ event ∈ e.events.head?, _))

def occurrences (e : Engine) (action : Action) : List Occurrence :=
  match action with
  | .deliver => if e.LosesHeartbeat then [.lost] else []
  | .call .refresh => [.refreshed]
  | .tick => if e.ticks then e.advancePhase.round else []
  | action => ((unpacked e.registry (e.items action)).map .heard).reverse

def history (e : Engine) : List Action → List Occurrence
  | [] => []
  | action :: rest => (e.step action).history rest ++ e.occurrences action

theorem memory_act (e : Engine) (m : Message) :
    (e.act (.ofMessage m)).memory = e.memory.after (.heard m) := by
  rw [Memory.after]
  cases Incoming.ofMessage m <;> rfl

theorem memory_receive (e : Engine) (item : Item) :
    (e.receive item).memory =
      (unpacked e.registry [item]).foldl (fun k m => k.after (.heard m)) e.memory := by
  cases item with
  | error => rfl
  | ok f =>
    rw [receive]
    dsimp only
    rw [handleFrame, unpacked, List.filterMap_cons]
    dsimp only [Except.toOption, Option.bind_some]
    cases Codec.unpack e.registry f.packet with
    | error => rfl
    | ok m => exact memory_act _ m

theorem memory_receiveAll (e : Engine) (items : List Item) :
    (e.receiveAll items).memory =
      e.memory.replay ((unpacked e.registry items).map .heard).reverse := by
  rw [Memory.replay, List.foldr_reverse, List.foldl_map]
  induction items generalizing e with
  | nil => rfl
  | cons item rest ih =>
    rw [unpacked_cons, List.foldl_append, ← memory_receive]
    have same : (e.receive item).registry = e.registry := registry_receiveAll e [item]
    rw [← same]
    exact ih (e.receive item)

section Handler

variable (e : Engine)

theorem memory_send (m : Outgoing) : (e.send m).1.memory = e.memory := by
  obtain ⟨outbound, same⟩ := sendTo_eq e e.target m
  rw [send, same]
  rfl

theorem memory_syncParameters (found : e.vehicle.phase = .syncingParameters) :
    e.syncParameters.memory = e.memory.replay e.round := by
  rw [round, if_pos found, syncParameters]
  split
  · exact memory_send _ _
  · split
    · next params _ gives =>
      have expires : (e.params.expire e.now e.config.paramTimeout.toNat).2.isSome := by
        rw [gives]
        rfl
      obtain ⟨-, forced⟩ := Parameters.of_expire expires
      rw [gives] at forced
      rw [if_pos expires]
      exact congrArg (Memory.mk · e.vehicle.capabilities) forced
    · next keeps =>
      have lasts : ¬ (e.params.expire e.now e.config.paramTimeout.toNat).2.isSome := by
        rw [keeps]
        exact Bool.false_ne_true
      rw [if_neg lasts]
      split
      · exact memory_send _ _
      · obtain ⟨_, _, same, -⟩ := requestMissing_eq e.target e.params.missing e
        rw [same]
        rfl

theorem memory_actOnPhase : e.actOnPhase.memory = e.memory.replay e.round := by
  rw [actOnPhase]
  cases found : e.vehicle.phase with
  | syncingParameters => exact memory_syncParameters e found
  | offline =>
    rw [round, if_neg (by simp [found])]
    rfl
  | awaitingCapabilities =>
    rw [round, if_neg (by simp [found])]
    exact memory_send _ _
  | ready =>
    rw [round, if_neg (by simp [found])]
    obtain ⟨_, _, _, same, -⟩ := e.dispatch_cases
    dsimp only
    rw [same]
    rfl

theorem memory_tick :
    (e.step .tick).memory = e.memory.replay (e.occurrences .tick) := by
  rw [step, occurrences]
  rcases e.tick_cases with ⟨early, same⟩ | ⟨t, due, -, same⟩
  · rw [same, if_neg (by simp [early])]
    rfl
  · rw [same, if_pos due]
    exact memory_actOnPhase { e with handler.timer := some (t.next e.now) }.advancePhase

end Handler

theorem memory_deliver (e : Engine) :
    (e.step .deliver).memory = e.memory.replay (e.occurrences .deliver) := by
  rw [step, occurrences, applyNext]
  split
  · next event rest events =>
    have loses : e.LosesHeartbeat
        ↔ heartbeatKind? e.registry = some event.kind ∧ event.health = .down := by
      simp [LosesHeartbeat, events]
    simp only [loses]
    rw [applyHealth]
    split
    · next heartbeat =>
      split
      · next up =>
        rw [if_neg (by simp [up])]
        rfl
      · next down =>
        rw [if_pos ⟨heartbeat, down⟩]
        rfl
      · next unknown =>
        rw [if_neg (by simp [unknown])]
        rfl
    · next other =>
      rw [if_neg fun both => other both.1]
      split <;> rfl
  · next events =>
    rw [if_neg (by simp [LosesHeartbeat, events])]
    rfl

theorem memory_step (e : Engine) (action : Action) :
    (e.step action).memory = e.memory.replay (e.occurrences action) := by
  by_cases ticks : action = .tick
  · subst ticks
    exact memory_tick e
  by_cases delivers : action = .deliver
  · subst delivers
    exact memory_deliver e
  by_cases refreshes : action = .call .refresh
  · subst refreshes
    rfl
  have hears : e.occurrences action =
      ((unpacked e.registry (e.items action)).map .heard).reverse := by
    rw [occurrences] <;> assumption
  rcases e.step_parts action with tick | deliver | refresh | ⟨kinds, rfl⟩ | keeps
  · exact absurd tick ticks
  · exact absurd deliver delivers
  · exact absurd refresh refreshes
  · rfl
  · rw [hears, ← memory_receiveAll, memory, keeps.params, keeps.vehicle]
    rfl

theorem memory_steps (e : Engine) (actions : List Action) :
    (e.steps actions).memory = e.memory.replay (e.history actions) := by
  induction actions generalizing e with
  | nil => rfl
  | cons action rest ih =>
    rw [history, Memory.replay_append, ← memory_step]
    exact ih (e.step action)

theorem round_cases (e : Engine) :
    (e.round = [.expired] ∧ e.params.isStarted)
      ∨ ∀ o ∈ e.round, o.isReset = false ∧ o ≠ .expired := by
  rw [round]
  split
  · split
    · exact .inr (by simp [Occurrence.isReset])
    · next begun =>
      split
      · exact .inl ⟨rfl, by simpa using begun⟩
      · exact .inr (by simp)
  · exact .inr (by simp)

theorem occurrences_cases (e : Engine) (action : Action) :
    (∃ o, e.occurrences action = [o] ∧ o.isReset)
      ∨ (e.occurrences action = [.expired] ∧ e.params.isStarted)
      ∨ ∀ o ∈ e.occurrences action, o.isReset = false ∧ o ≠ .expired := by
  fun_cases occurrences e action with
  | case1 => exact .inl ⟨.lost, rfl, rfl⟩
  | case2 => exact .inr (.inr nofun)
  | case3 => exact .inl ⟨.refreshed, rfl, rfl⟩
  | case4 => exact .inr e.advancePhase.round_cases
  | case5 => exact .inr (.inr nofun)
  | case6 =>
    refine .inr (.inr fun o isMember => ?_)
    obtain ⟨m, -, rfl⟩ := List.mem_map.mp (List.mem_reverse.mp isMember)
    exact ⟨rfl, nofun⟩

open Occurrence in
/-- The past accounts for all that is known, and no round was given up that had not begun. -/
structure Remembers (past : List Occurrence) (e : Engine) : Prop where
  memory : e.memory = .replay .empty past
  rounds : expired ∈ sinceReset past → Expired (sinceReset past)

namespace Remembers

variable {past : List Occurrence} {e : Engine}

open Occurrence

theorem recalls (h : Remembers past e) : e.memory.Recalls past :=
  h.memory ▸ Memory.Recalls.replay past

theorem rounds_step (h : Remembers past e) (action : Action)
    (gone : expired ∈ sinceReset (e.occurrences action ++ past)) :
    Expired (sinceReset (e.occurrences action ++ past)) := by
  rcases e.occurrences_cases action with ⟨o, only, resets⟩ | ⟨only, begun⟩ | kept
  · have nothing : sinceReset (o :: past) = [] := List.takeWhile_cons_of_neg (by simp [resets])
    rw [only, List.singleton_append, nothing] at gone
    cases gone
  · obtain ⟨now, isStarted⟩ := h.recalls.started begun
    rw [only, List.singleton_append, sinceReset_cons rfl]
    exact ⟨[], sinceReset past, now, rfl, isStarted⟩
  · rw [sinceReset_append fun o isNew => (kept o isNew).1] at gone ⊢
    rcases List.mem_append.mp gone with isNew | old
    · exact absurd rfl (kept _ isNew).2
    · exact (h.rounds old).append

theorem step (h : Remembers past e) (action : Action) :
    Remembers (e.occurrences action ++ past) (e.step action) where
  memory := by rw [memory_step, h.memory, Memory.replay_append]
  rounds := h.rounds_step action

theorem steps (h : Remembers past e) (actions : List Action) :
    Remembers (e.history actions ++ past) (e.steps actions) := by
  induction actions generalizing e past with
  | nil => exact h
  | cons action rest ih =>
    rw [history, List.append_assoc]
    exact ih (h.step action)

theorem start (r : Registry) (c : EngineConfig) (receiver : Receiver) :
    Remembers [] (start r c receiver) :=
  ⟨rfl, nofun⟩

end Remembers

theorem complete_of_ready {e : Engine} {action : Action} (before : e.vehicle.phase ≠ .ready)
    (ready : (e.step action).vehicle.phase = .ready) :
    action = .tick ∧ e.params.isComplete := by
  have moves := e.moves_step action
  rw [ready] at moves
  rcases Relation.ReflTransGen.cases_tail moves with same | ⟨phase, -, move⟩
  · exact absurd same.symm before
  · cases move with
    | synced complete => exact ⟨rfl, complete⟩

theorem capabilities_tick (e : Engine) :
    (e.step .tick).vehicle.capabilities = e.vehicle.capabilities := by
  rcases runTicks_one e with ⟨-, same⟩ | ⟨-, ticked⟩
  · rw [step, same]
  · obtain ⟨_, _, _, _, _, same⟩ := ticked.rest
    rw [step, same]
    rfl

open Occurrence in
/-- When a vehicle becomes ready, it has told its capabilities since the heartbeats were last lost,
and since then or since the last refresh either a round of parameters was given up or all
parameters have come. -/
theorem fresh_of_ready (r : Registry) (c : EngineConfig) (receiver : Receiver)
    (actions : List Action) (action : Action) :
    let e := (start r c receiver).steps actions
    let past := (start r c receiver).history actions
    e.vehicle.phase ≠ .ready → (e.step action).vehicle.phase = .ready →
      Informed (sinceLoss past) ∧ (Expired (sinceReset past) ∨ Covered (sinceReset past)) := by
  intro e past before ready
  have remembers : Remembers past e := by
    have h := (Remembers.start r c receiver).steps actions
    rwa [List.append_nil] at h
  obtain ⟨rfl, complete⟩ := complete_of_ready before ready
  have consistent := consistent_step e .tick (consistent_steps r c receiver actions)
  have known : e.vehicle.capabilities.isSome := by
    rw [← e.capabilities_tick]
    exact consistent.capabilities (.inr ready)
  refine ⟨remembers.recalls.informed known, ?_⟩
  by_cases gone : expired ∈ sinceReset past
  · exact .inl (remembers.rounds gone)
  · exact .inr (remembers.recalls.covered complete gone)

def regained : List Action :=
  let told := [arrival 0 [], .deliver, arrival 148 [0, 0, 0, 0, 0, 0, 0, 0],
    arrival 22 ([0, 0, 0, 0, 1, 0, 0, 0] ++ List.replicate 16 65)]
  .watch [0] :: told ++ [.tick, .call (.advance 3000), .watch [0], .call (.advance 3000),
    .watch [0], .deliver] ++ told

open Occurrence in
theorem fresh_of_regained :
    let e := (start scarce {} .ready).steps regained
    let past := (start scarce {} .ready).history regained
    e.vehicle.phase ≠ .ready ∧ (e.step .tick).vehicle.phase = .ready ∧ lost ∈ past
      ∧ Informed (sinceLoss past) ∧ (Expired (sinceReset past) ∨ Covered (sinceReset past)) := by
  intro e past
  have before : e.vehicle.phase ≠ .ready := by decide +kernel
  have ready : (e.step .tick).vehicle.phase = .ready := by decide +kernel
  have isLost : lost ∈ past := by decide +kernel
  exact ⟨before, ready, isLost, fresh_of_ready scarce {} .ready regained .tick before ready⟩

end VehicleLink.Engine
