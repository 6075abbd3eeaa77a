import VehicleLink.Proofs.Engine.Telemetry
import VehicleLink.Proofs.Vehicle.Outgoing

namespace VehicleLink

/-- What a frame is to those who receive it: a packet of its sender under the number of the attempt
to send it, and the message that was meant. -/
structure Transmission.Bears (t : Transmission) (c : EngineConfig) (p : Packet) (msg : Message) :
    Prop where
  decoded : Codec.decode Dialect.builtin t.frame = .ok p
  whole : t.frame = p.bytes
  system : p.header.system = c.system
  component : p.header.component = c.component
  sequence : p.header.sequence.toNat = t.attempt % 256
  unpacked : Codec.unpack Dialect.builtin p = .ok msg
  meant : msg.Says t.target t.message

namespace Engine

theorem bears_of_prints {e : Engine} (builtin : e.registry = Dialect.builtin) {t : Transmission}
    (h : e.Prints t) : ∃ p msg, t.Bears e.config p msg := by
  obtain ⟨p, packed, encoded⟩ := ok_of_bind h
  dsimp only at packed encoded
  rw [builtin] at packed encoded
  obtain ⟨isSound, sender, msg, unpacked, meant⟩ := Outgoing.says_of_pack packed
  rw [Codec.encode_of_sound isSound] at encoded
  have whole : t.frame = p.bytes := (Except.ok.inj encoded).symm
  simp only [Engine.sender, Sender.mk.injEq] at sender
  obtain ⟨sequence, system, component⟩ := sender
  refine ⟨p, msg, whole ▸ Codec.decode_of_sound isSound, whole, system, component, ?_, unpacked,
    meant⟩
  rw [sequence, UInt8.toNat_ofNat']

def attempts (e : Engine) : List Action → List Attempt
  | [] => []
  | action :: rest => e.attempted action ++ (e.step action).attempts rest

section Steps

variable (e : Engine)

theorem tries_steps (actions : List Action) : Tries (e.attempts actions) e (e.steps actions) := by
  induction actions generalizing e with
  | nil => exact .refl e
  | cons action rest ih => exact (e.tries_step action).trans (ih (e.step action))

theorem order?_eq_none_iff (e' : Engine) (action : Action) :
    e.order? action = none ↔ e'.order? action = none := by
  cases action with
  | call request => cases request <;> simp [order?]
  | _ => exact Iff.rfl

theorem overriding?_eq_none_iff (e' : Engine) (action : Action) :
    e.overriding? action = none ↔ e'.overriding? action = none := by
  cases action with
  | call request => cases request <;> simp [overriding?]
  | _ => exact Iff.rfl

variable {e} {action : Action}

theorem queue_submit (opcode : UInt16) (arguments : Arguments) (watched : Bool) :
    ∃ handle, (e.submit opcode arguments watched).1.queue = e.queue.push opcode arguments handle := by
  rw [submit]
  split <;> exact ⟨_, rfl⟩

theorem queue_of_order {opcode : UInt16} {arguments : Arguments}
    (order : e.order? action = some (opcode, arguments)) :
    ∃ handle, (e.step action).queue = e.queue.push opcode arguments handle := by
  cases action with
  | call request =>
    cases request with
    | submit | setMode | setHome =>
      cases order
      exact queue_submit _ _ _
    | _ => cases order
  | _ => cases order

theorem plan_step (other : action ≠ .tick) (noOrder : e.order? action = none) :
    (e.step action).queue.plan = e.queue.plan := by
  rcases e.step_parts action with rfl | rfl | rfl | ⟨_, rfl⟩ | keeps
  · exact absurd rfl other
  · obtain ⟨_, _, _, same⟩ := e.applyNext_eq
    rw [step, same]
  · rfl
  · rfl
  · have none := (e.order?_eq_none_iff (e.receiveAll (e.items action)) action).mp noOrder
    exact (keeps.plan none).trans (Hears.receiveAll e _).plan

theorem channels_step (other : action ≠ .resend) (noOverride : e.overriding? action = none) :
    (e.step action).channels = e.channels := by
  rcases e.step_parts action with rfl | rfl | rfl | ⟨_, rfl⟩ | keeps
  · rcases runTicks_one e with ⟨-, same⟩ | ⟨-, ticked⟩
    · rw [step, same]
    · obtain ⟨_, _, _, _, _, same⟩ := ticked.rest
      rw [step, same]
  · obtain ⟨_, _, _, same⟩ := e.applyNext_eq
    rw [step, same]
  · rfl
  · rfl
  · have none := (e.overriding?_eq_none_iff (e.receiveAll (e.items action)) action).mp noOverride
    obtain ⟨_, _, _, _, _, _, _, _, received⟩ := (Hears.receiveAll e (e.items action)).rest
    rw [keeps.channels other none, received]

end Steps

structure Acquainted (e : Engine) : Prop where
  known : e.vehicle.capabilities.isSome → e.vehicle.telemetry.identity.isSome
  pass : ∀ p ∈ e.handler.pass, e.vehicle.telemetry.identity = some p.target

theorem target_of_identity {e : Engine} {target : Target}
    (h : e.vehicle.telemetry.identity = some target) : e.target = target := by
  rw [Engine.target, Telemetry.target, h]
  rfl

theorem identity_step {e : Engine} {target : Target} (action : Action)
    (h : e.vehicle.telemetry.identity = some target) :
    (e.step action).vehicle.telemetry.identity = some target := by
  rw [telemetry_step, Telemetry.identity_receiveAll, h]
  rfl

namespace Acquainted

variable {e : Engine}

theorem start (r : Registry) (c : EngineConfig) (receiver : Receiver) :
    Acquainted (start r c receiver) :=
  ⟨nofun, nofun⟩

theorem known_receive
    (h : e.vehicle.capabilities.isSome → e.vehicle.telemetry.identity.isSome) (item : Item) :
    (e.receive item).vehicle.capabilities.isSome →
      (e.receive item).vehicle.telemetry.identity.isSome := by
  rw [telemetry_receive, Telemetry.identity_receive]
  cases item with
  | error => exact fun known => by simp [h known]
  | ok f => simp [Except.toOption]

theorem known_receiveAll
    (h : e.vehicle.capabilities.isSome → e.vehicle.telemetry.identity.isSome) (items : List Item) :
    (e.receiveAll items).vehicle.capabilities.isSome →
      (e.receiveAll items).vehicle.telemetry.identity.isSome := by
  induction items generalizing e with
  | nil => exact h
  | cons item rest ih => exact ih (known_receive h item)

theorem known_step (h : Acquainted e) (action : Action) :
    (e.step action).vehicle.capabilities.isSome →
      (e.step action).vehicle.telemetry.identity.isSome := by
  rcases e.step_parts action with rfl | rfl | rfl | ⟨_, rfl⟩ | beside
  · rw [capabilities_tick, telemetry_step]
    exact h.known
  · rcases e.vehicle_applyNext with ⟨-, scrubbed⟩ | ⟨_, _, kept, -⟩
    · rw [step, scrubbed]
      intro known
      cases known
    · rw [step, kept]
      exact h.known
  · exact h.known
  · exact h.known
  · rw [beside.vehicle]
    exact known_receiveAll h.known _

/-- A pass begins with the capabilities known, and the vehicle that told them stays the same. -/
theorem step (h : Acquainted e) (consistent : e.vehicle.Consistent) (action : Action) :
    Acquainted (e.step action) where
  known := h.known_step action
  pass := by
    intro p' isPass'
    by_cases tick : action = .tick
    · subst tick
      rcases runTicks_one e with ⟨-, same⟩ | ⟨-, ticked⟩
      · rw [Engine.step, same] at isPass' ⊢
        exact h.pass p' isPass'
      · obtain ⟨phase, target, -⟩ := ticked.pass p' isPass'
        have known := (consistent_step e .tick consistent).capabilities (.inl phase)
        rw [capabilities_tick] at known
        obtain ⟨id, identified⟩ := Option.isSome_iff_exists.mp (h.known known)
        rw [target, target_of_identity identified]
        exact identity_step .tick identified
    · obtain ⟨p, isPass, target, -⟩ := (e.spares_step tick).pass p' isPass'
      exact target ▸ identity_step action (h.pass p isPass)

end Acquainted

theorem acquainted_steps (r : Registry) (c : EngineConfig) (receiver : Receiver)
    (actions : List Action) : Acquainted ((start r c receiver).steps actions) := by
  have both := steps_induction (P := fun e => e.vehicle.Consistent ∧ Acquainted e)
    (fun e action h => ⟨consistent_step e action h.1, h.2.step h.1 action⟩)
    ⟨Vehicle.consistent_start, .start r c receiver⟩ actions
  exact both.2

theorem target_of_attempted {e : Engine} (h : Acquainted e) {action : Action} {a : Attempt}
    (isTried : a ∈ e.attempted action) : a.target = e.target := by
  rcases (Prompts.of_mem isTried).target with same | ⟨p, isPass, same⟩
  · exact same
  · exact same.trans (target_of_identity (h.pass p isPass)).symm

end Engine

end VehicleLink
