import Mathlib.Data.List.Nodup
import VehicleLink.Proofs.Engine.Changes
import VehicleLink.Proofs.Schema

namespace VehicleLink

namespace Registry

variable {r : Registry} {name name' : String} {d d' : Definition}

theorem name_eq_of_id_eq (h : r.named? name = some d) (h' : r.named? name' = some d')
    (same : d.id = d'.id) : name = name' := by
  have one : d = d' :=
    List.inj_on_of_nodup_map r.distinct (mem_of_named? h) (mem_of_named? h') same
  rw [← name_of_named? h, ← name_of_named? h', one]

end Registry

namespace Subsystem

theorem mem_all (s : Subsystem) : s ∈ all := by
  cases s <;> decide

theorem eq_of_mem_messages {s s' : Subsystem} {name : String} (h : name ∈ s.messages)
    (h' : name ∈ s'.messages) : s = s' := by
  have disjoint : ∀ s ∈ all, ∀ s' ∈ all, ∀ name ∈ s.messages, name ∈ s'.messages → s = s' := by
    decide
  exact disjoint s s.mem_all s' s'.mem_all name h h'

theorem heartbeat_notMem_messages (s : Subsystem) : "HEARTBEAT" ∉ s.messages := by
  cases s <;> decide

end Subsystem

namespace Engine

variable {r : Registry} {s s' : Subsystem} {kind : UInt8}

theorem mem_kindsOf :
    kind ∈ kindsOf r s ↔ ∃ name ∈ s.messages, ∃ d, r.named? name = some d ∧ d.id = kind := by
  simp only [kindsOf, List.mem_filterMap, Option.map_eq_some_iff]

theorem eq_of_mem_kindsOf (h : kind ∈ kindsOf r s) (h' : kind ∈ kindsOf r s') : s = s' := by
  obtain ⟨name, isMessage, d, named, rfl⟩ := mem_kindsOf.mp h
  obtain ⟨name', isMessage', d', named', same⟩ := mem_kindsOf.mp h'
  obtain rfl := Registry.name_eq_of_id_eq named' named same
  exact Subsystem.eq_of_mem_messages isMessage isMessage'

theorem notMem_kindsOf_of_heartbeat (h : heartbeatKind? r = some kind) (s : Subsystem) :
    kind ∉ kindsOf r s := by
  intro isKind
  obtain ⟨name, isMessage, d, named, rfl⟩ := mem_kindsOf.mp isKind
  obtain ⟨d', named', same⟩ := Option.map_eq_some_iff.mp h
  obtain rfl := Registry.name_eq_of_id_eq named' named same
  exact s.heartbeat_notMem_messages isMessage

theorem subsystemOf?_eq_some_iff : subsystemOf? r kind = some s ↔ kind ∈ kindsOf r s := by
  constructor
  · intro found
    simpa using List.find?_some found
  · intro isKind
    cases found : subsystemOf? r kind with
    | none =>
      have missed := List.find?_eq_none.mp found s s.mem_all
      exact absurd isKind (by simpa using missed)
    | some s' =>
      have isKind' : kind ∈ kindsOf r s' := by simpa using List.find?_some found
      rw [eq_of_mem_kindsOf isKind isKind']

end Engine

namespace Monitor

variable {tracked : List (UInt8 × Nat)} {m : Monitor}

theorem keyed_trackAll (h : m.Keyed) :
    (tracked.foldl (fun m e => m.track e.1 e.2 0) m).Keyed := by
  induction tracked generalizing m with
  | nil => exact h
  | cons e rest ih => exact ih (h.track _ _ _)

theorem health?_trackAll (kind : UInt8) :
    (tracked.foldl (fun m e => m.track e.1 e.2 0) m).health? kind =
      if kind ∈ tracked.map Prod.fst then some .unknown else m.health? kind := by
  induction tracked generalizing m with
  | nil => rfl
  | cons e rest ih =>
    rw [List.foldl_cons, ih, health?_track]
    by_cases later : kind ∈ rest.map Prod.fst
    · simp [later]
    · by_cases now : e.1 = kind
      · simp [now]
      · simp [later, now, Ne.symm now]

end Monitor

namespace Engine

variable {r : Registry} {c : EngineConfig} {s : Subsystem} {kind : UInt8}

theorem keyed_watch (r : Registry) (c : EngineConfig) : (watch r c).Keyed :=
  Monitor.keyed_trackAll Monitor.keyed_empty

theorem health?_watch (kind : UInt8) :
    (watch r c).health? kind = some .unknown ∨ (watch r c).health? kind = none := by
  rw [watch, Monitor.health?_trackAll]
  split
  · exact .inl rfl
  · exact .inr rfl

theorem health?_watch_of_kind (h : heartbeatKind? r = some kind ∨ ∃ s, kind ∈ kindsOf r s) :
    (watch r c).health? kind = some .unknown := by
  rw [watch, Monitor.health?_trackAll, if_pos]
  simpa [List.map_flatMap, Function.comp_def, Subsystem.mem_all] using h

theorem eq_unknown_of_health?_watch {h : Health} (found : (watch r c).health? kind = some h) :
    h = .unknown := by
  rcases health?_watch (r := r) (c := c) kind with unknown | none
  · exact Option.some.inj (found.symm.trans unknown)
  · cases found.symm.trans none

theorem aggregate_watch :
    Health.aggregate ((kindsOf r s).filterMap (watch r c).health?) = .unknown := by
  have unknown : ∀ h ∈ (kindsOf r s).filterMap (watch r c).health?, h = .unknown := by
    intro h isMember
    obtain ⟨kind, -, found⟩ := List.mem_filterMap.mp isMember
    exact eq_unknown_of_health?_watch found
  have noUp : Health.up ∉ (kindsOf r s).filterMap (watch r c).health? :=
    fun up => by cases unknown _ up
  have noDown : Health.down ∉ (kindsOf r s).filterMap (watch r c).health? :=
    fun down => by cases unknown _ down
  rw [Health.aggregate, if_neg noUp, if_neg noDown]

structure Tells (e e' : Engine) : Prop where
  registry : e'.registry = e.registry
  link : e'.vehicle.link = e.vehicle.link
  subsystems : e'.vehicle.subsystems = e.vehicle.subsystems
  monitor : ∃ raised, e'.events = e.events ++ raised ∧ e.monitor.Tells e'.monitor raised

namespace Tells

variable {e e' e'' : Engine}

theorem quiet (registry : e'.registry = e.registry) (link : e'.vehicle.link = e.vehicle.link)
    (subsystems : e'.vehicle.subsystems = e.vehicle.subsystems) (events : e'.events = e.events)
    (monitor : e.monitor.Tells e'.monitor []) : Tells e e' :=
  ⟨registry, link, subsystems, [], by rw [events, List.append_nil], monitor⟩

theorem refl (e : Engine) : Tells e e := quiet rfl rfl rfl rfl (.refl _)

theorem trans (h : Tells e e') (h' : Tells e' e'') : Tells e e'' where
  registry := h'.registry.trans h.registry
  link := h'.link.trans h.link
  subsystems := h'.subsystems.trans h.subsystems
  monitor := by
    obtain ⟨raised, events, tells⟩ := h.monitor
    obtain ⟨raised', events', tells'⟩ := h'.monitor
    exact ⟨raised ++ raised', by rw [events', events, List.append_assoc], tells.trans tells'⟩

theorem of_keeps {action : Action} (h : Keeps action e e') : Tells e e' :=
  quiet h.registry (congrArg _ h.vehicle) (congrArg _ h.vehicle) h.events h.monitor

theorem see (e : Engine) (kind : UInt8) : Tells e (e.see kind) :=
  ⟨rfl, rfl, rfl, _, rfl, .update _ _ _⟩

theorem act (e : Engine) (i : Incoming) : Tells e (e.act i) := by
  cases i <;> exact quiet rfl rfl rfl rfl (.refl _)

theorem receive (e : Engine) (item : Item) : Tells e (e.receive item) := by
  cases item with
  | error => exact quiet rfl rfl rfl rfl (.refl _)
  | ok f =>
    rw [Engine.receive]
    dsimp only
    rw [handleFrame]
    dsimp only
    split
    · refine trans ?_ (act _ _)
      refine trans ?_ (see _ _)
      exact quiet rfl rfl rfl rfl (.refl _)
    · exact quiet rfl rfl rfl rfl (.refl _)

theorem receiveAll (e : Engine) (items : List Item) : Tells e (e.receiveAll items) := by
  induction items generalizing e with
  | nil => exact refl e
  | cons item rest ih => exact (receive e item).trans (ih _)

theorem tick (e : Engine) : Tells e (e.step .tick) := by
  rcases runTicks_one e with ⟨-, same⟩ | ⟨-, ticked⟩
  · rw [step, same]
    exact refl e
  · obtain ⟨_, _, _, _, _, same⟩ := ticked.rest
    rw [step, same]
    exact quiet rfl rfl rfl rfl (.refl _)

theorem refresh (e : Engine) : Tells e e.refresh := by
  rw [Engine.refresh]
  dsimp only
  split <;> exact quiet rfl rfl rfl rfl (.refl _)

theorem step (e : Engine) {action : Action} (waits : action ≠ .deliver) :
    Tells e (e.step action) := by
  rcases e.step_parts action with rfl | rfl | rfl | ⟨kinds, rfl⟩ | keeps
  · exact tick e
  · exact absurd rfl waits
  · exact refresh e
  · exact ⟨rfl, rfl, rfl, _, rfl, .fireOnly _ _ _⟩
  · exact (receiveAll e _).trans (of_keeps keeps)

end Tells

section Delivery

variable (e : Engine) (event : HealthEvent)

theorem applyHealth_eq : ∃ vehicle params, e.applyHealth event = { e with vehicle, params } := by
  rw [applyHealth]
  repeat' split
  all_goals exact ⟨_, _, rfl⟩

theorem link_applyHealth (h : heartbeatKind? e.registry = some kind) :
    (e.applyHealth event).vehicle.link = e.vehicle.link.after kind [event] := by
  rw [applyHealth, h, Health.after, List.foldl_cons, List.foldl_nil]
  by_cases same : kind = event.kind
  · rw [if_pos (congrArg some same)]
    split
    · next up => simp [same, up]
    · next down => simp [same, down, Vehicle.loseLink]
    · next unknown => simp [unknown]
  · rw [if_neg fun same' => same (Option.some.inj same'), if_neg fun both => same both.1.symm]
    split <;> rfl

theorem link_applyHealth_of_unheard (h : heartbeatKind? e.registry = none) :
    (e.applyHealth event).vehicle.link = e.vehicle.link := by
  rw [applyHealth, h, if_neg (by simp)]
  split <;> rfl

theorem subsystems_applyHealth (s : Subsystem) :
    (e.applyHealth event).vehicle.subsystems.get? s =
      if event.kind ∈ kindsOf e.registry s then some (e.subsystemHealth s)
      else e.vehicle.subsystems.get? s := by
  rw [applyHealth]
  split
  · next heartbeat =>
    rw [if_neg (notMem_kindsOf_of_heartbeat heartbeat s)]
    split <;> rfl
  · simp only [← subsystemOf?_eq_some_iff]
    split
    · next s' found =>
      rw [Assoc.get?_insert, found]
      by_cases same : s' = s <;> simp [same]
    · next none =>
      rw [none, if_neg (by simp)]

end Delivery

/-- What is published, and the events that are not applied yet, account for the health of every
kind. -/
structure Accounted (r : Registry) (e : Engine) : Prop where
  registry : e.registry = r
  keyed : e.monitor.Keyed
  watched : ∀ s, ∀ kind ∈ kindsOf r s, (e.monitor.health? kind).isSome
  link : ∀ kind ∈ heartbeatKind? r,
    e.monitor.health? kind = some (e.vehicle.link.after kind e.events)
  unheard : heartbeatKind? r = none → e.vehicle.link = .unknown
  subsystems : ∀ s, (∃ event ∈ e.events, event.kind ∈ kindsOf r s)
    ∨ e.vehicle.subsystems.get? s
      = some (.aggregate ((kindsOf r s).filterMap e.monitor.health?))

namespace Accounted

variable {e e' : Engine}

theorem start (r : Registry) (c : EngineConfig) (receiver : Receiver) :
    Accounted r (start r c receiver) where
  registry := rfl
  keyed := keyed_watch r c
  watched s kind isKind := by
    rw [Engine.start, health?_watch_of_kind (.inr ⟨s, isKind⟩)]
    rfl
  link kind isHeartbeat := health?_watch_of_kind (.inl isHeartbeat)
  unheard _ := rfl
  subsystems s := by
    refine .inr ?_
    rw [Engine.start, aggregate_watch]
    cases s <;> rfl

theorem tells (h : Accounted r e) (told : Tells e e') : Accounted r e' := by
  obtain ⟨raised, events, tells⟩ := told.monitor
  have health := tells.health h.keyed
  refine ⟨told.registry.trans h.registry, tells.keyed h.keyed, ?_, ?_, ?_, ?_⟩
  · intro s kind isKind
    rw [health, Option.isSome_map]
    exact h.watched s kind isKind
  · intro kind isHeartbeat
    rw [health, h.link kind isHeartbeat, told.link, events, Health.after_append]
    rfl
  · intro none
    rw [told.link, h.unheard none]
  · intro s
    rw [events, told.subsystems]
    by_cases raises : ∃ event ∈ raised, event.kind ∈ kindsOf r s
    · obtain ⟨event, isRaised, isKind⟩ := raises
      exact .inl ⟨event, List.mem_append_right _ isRaised, isKind⟩
    · rcases h.subsystems s with ⟨event, pending, isKind⟩ | published
      · exact .inl ⟨event, List.mem_append_left _ pending, isKind⟩
      · refine .inr (published.trans ?_)
        -- No event of a kind of the subsystem was raised, so no health of one has changed.
        have same : ∀ kind ∈ kindsOf r s, e.monitor.health? kind = e'.monitor.health? kind := by
          intro kind isKind
          have silent : ∀ event ∈ raised, event.kind ≠ kind :=
            fun event isRaised same => raises ⟨event, isRaised, same ▸ isKind⟩
          simp only [health, Health.after_of_silent silent]
          exact Option.map_id_apply.symm
        rw [List.filterMap_congr same]

theorem applyNext (h : Accounted r e) : Accounted r e.applyNext := by
  rw [Engine.applyNext]
  split
  · next event rest events =>
    obtain rfl := h.registry
    have link (kind : UInt8) := @link_applyHealth kind { e with events := rest } event
    have unheard := link_applyHealth_of_unheard { e with events := rest } event
    have subsystems := subsystems_applyHealth { e with events := rest } event
    obtain ⟨vehicle, params, applied⟩ := applyHealth_eq { e with events := rest } event
    rw [applied] at link unheard subsystems ⊢
    refine ⟨rfl, h.keyed, h.watched, ?_, ?_, ?_⟩
    · intro kind isHeartbeat
      refine (h.link kind isHeartbeat).trans ?_
      rw [link kind isHeartbeat, events]
      rfl
    · intro none
      exact (unheard none).trans (h.unheard none)
    · intro s
      rw [subsystems]
      split
      -- The subsystem is looked at again, whatever else is still to be applied.
      · exact .inr rfl
      · next other =>
        refine (h.subsystems s).imp_left ?_
        rintro ⟨event', pending, isKind⟩
        rw [events] at pending
        rcases List.mem_cons.mp pending with rfl | later
        · exact absurd isKind other
        · exact ⟨event', later, isKind⟩
  · exact h

theorem step (h : Accounted r e) (action : Action) : Accounted r (e.step action) := by
  by_cases delivers : action = .deliver
  · subst delivers
    exact h.applyNext
  · exact h.tells (.step e delivers)

theorem steps (h : Accounted r e) (actions : List Action) : Accounted r (e.steps actions) :=
  steps_induction (fun _ action h => h.step action) h actions

end Accounted

/-- Every watchdog of the dialect is there, and what is published of each is up to date as soon
as no event of its kinds is left to be applied. -/
structure Published (r : Registry) (e : Engine) : Prop where
  watched : ∀ s, ∀ kind ∈ kindsOf r s, (e.monitor.health? kind).isSome
  subsystems : ∀ s, (∃ event ∈ e.events, event.kind ∈ kindsOf r s)
    ∨ e.vehicle.subsystems.get? s
      = some (.aggregate ((kindsOf r s).filterMap e.monitor.health?))
  link : ∀ kind ∈ heartbeatKind? r, (∃ event ∈ e.events, event.kind = kind)
    ∨ e.monitor.health? kind = some e.vehicle.link
  unheard : heartbeatKind? r = none → e.vehicle.link = .unknown

theorem Accounted.published {e : Engine} (h : Accounted r e) : Published r e where
  watched := h.watched
  subsystems := h.subsystems
  link kind isHeartbeat := by
    by_cases pending : ∃ event ∈ e.events, event.kind = kind
    · exact .inl pending
    · have silent : ∀ event ∈ e.events, event.kind ≠ kind :=
        fun event isPending same => pending ⟨event, isPending, same⟩
      rw [h.link kind isHeartbeat, Health.after_of_silent silent]
      exact .inr rfl
  unheard := h.unheard

theorem published_steps (r : Registry) (c : EngineConfig) (receiver : Receiver)
    (actions : List Action) : Published r ((start r c receiver).steps actions) :=
  ((Accounted.start r c receiver).steps actions).published

theorem events_applyNext (e : Engine) : e.applyNext.events = e.events.tail := by
  rw [applyNext]
  split
  · next event rest events =>
    obtain ⟨_, _, same⟩ := applyHealth_eq { e with events := rest } event
    rw [same, events]
    rfl
  · next none => rw [none, List.tail_nil]

theorem events_applyEvents (e : Engine) : e.applyEvents.cancelled ∨ e.applyEvents.events = [] := by
  rw [applyEvents]
  split
  · next stopped => exact .inl stopped
  · next running =>
    clear running
    refine .inr ?_
    generalize pending : e.events = events
    induction events generalizing e with
    | nil => exact pending
    | cons event rest ih =>
      exact ih e.applyNext (by rw [events_applyNext, pending, List.tail_cons])

theorem run_settle (requests : List Request) (e : Engine) :
    ∃ e' : Engine, e.settle.run requests = e'.settle := by
  induction requests generalizing e with
  | nil => exact ⟨e, rfl⟩
  | cons request rest ih => exact ih (e.settle.perform request).1

theorem published_run (r : Registry) (c : EngineConfig) (receiver : Receiver)
    (requests : List Request) :
    let e := (launch r c receiver).run requests
    e.cancelled
      ∨ (∀ s, e.vehicle.subsystems.get? s
          = some (.aggregate ((kindsOf r s).filterMap e.monitor.health?)))
        ∧ ∀ kind ∈ heartbeatKind? r, e.monitor.health? kind = some e.vehicle.link := by
  intro e
  obtain ⟨actions, reached⟩ := Reaches.launch r c receiver requests
  have published : Published r e := by
    have accounted := (Accounted.start r c receiver).steps actions
    rw [reached] at accounted
    exact accounted.published
  obtain ⟨e', settled⟩ : ∃ e' : Engine, e = e'.settle := run_settle requests _
  have applied : e.cancelled ∨ e.events = [] := by
    rw [settled]
    exact events_applyEvents _
  refine applied.imp_right fun none => ⟨fun s => ?_, fun kind isHeartbeat => ?_⟩
  · exact (published.subsystems s).resolve_left (by simp [none])
  · exact (published.link kind isHeartbeat).resolve_left (by simp [none])

end Engine

end VehicleLink
