import VehicleLink.Proofs.Engine.Datagram
import VehicleLink.Proofs.Engine.History

namespace VehicleLink

def Frame.sender (f : Frame) : Target := ⟨f.packet.header.system, f.packet.header.component⟩

namespace Telemetry

open Engine (unpacked)

def receiveAll (t : Telemetry) (r : Registry) (items : List Item) : Telemetry :=
  items.foldl (fun t item => t.receive r item) t

variable (t : Telemetry) (r : Registry)

theorem identity_note (m : Message) : (t.note m).identity = t.identity := by
  rw [note]
  dsimp only
  split <;> rfl

theorem messages_note (m : Message) : (t.note m).messages = t.messages.insert m.name m := by
  rw [note]
  dsimp only
  split <;> rfl

theorem identity_receive (item : Item) :
    (t.receive r item).identity = t.identity.or (item.toOption.map Frame.sender) := by
  cases item with
  | error cause => cases cause <;> exact Option.or_none.symm
  | ok f =>
    rw [receive, Engine.identify_eq]
    split
    · rw [identity_note]
      rfl
    · rfl

theorem messages_receive (item : Item) (name : String) :
    (t.receive r item).messages.get? name =
      ((unpacked r [item]).find? (·.name = name)).or (t.messages.get? name) := by
  cases item with
  | error cause => cases cause <;> rfl
  | ok f =>
    rw [receive, Engine.identify_eq, unpacked, List.filterMap_cons]
    dsimp only [Except.toOption, Option.bind_some]
    cases Codec.unpack r f.packet with
    | error => rfl
    | ok m =>
      simp only [messages_note, Assoc.get?_insert, List.filterMap_nil, List.find?_singleton]
      by_cases named : m.name = name <;> simp [named]

theorem identity_receiveAll (items : List Item) :
    (t.receiveAll r items).identity =
      t.identity.or ((items.findSome? Except.toOption).map Frame.sender) := by
  induction items generalizing t with
  | nil => exact Option.or_none.symm
  | cons item rest ih =>
    rw [receiveAll, List.foldl_cons, ← receiveAll, ih, identity_receive, Option.or_assoc,
      List.findSome?_cons]
    cases item <;> rfl

theorem reverse_unpacked_singleton (item : Item) :
    (unpacked r [item]).reverse = unpacked r [item] := by
  cases h : (item.toOption.bind fun f => (Codec.unpack r f.packet).toOption) <;>
    simp [unpacked, h]

theorem messages_receiveAll (items : List Item) (name : String) :
    (t.receiveAll r items).messages.get? name =
      ((unpacked r items).reverse.find? (·.name = name)).or (t.messages.get? name) := by
  induction items generalizing t with
  | nil => rfl
  | cons item rest ih =>
    rw [receiveAll, List.foldl_cons, ← receiveAll, ih, messages_receive,
      Engine.unpacked_cons r item rest, List.reverse_append, reverse_unpacked_singleton,
      List.find?_append, Option.or_assoc]

end Telemetry

namespace Engine

def intake (e : Engine) : List Action → List Item
  | [] => []
  | action :: rest => e.items action ++ (e.step action).intake rest

theorem telemetry_act (e : Engine) (i : Incoming) :
    (e.act i).vehicle.telemetry = e.vehicle.telemetry := by
  cases i <;> rfl

theorem telemetry_receive (e : Engine) (item : Item) :
    (e.receive item).vehicle.telemetry = e.vehicle.telemetry.receive e.registry item := by
  cases item with
  | error => rfl
  | ok f =>
    rw [receive]
    dsimp only
    rw [handleFrame]
    dsimp only
    split
    · exact telemetry_act _ _
    · rfl

theorem telemetry_receiveAll (e : Engine) (items : List Item) :
    (e.receiveAll items).vehicle.telemetry =
      e.vehicle.telemetry.receiveAll e.registry items := by
  induction items generalizing e with
  | nil => rfl
  | cons item rest ih =>
    have registry : (e.receive item).registry = e.registry := registry_receiveAll e [item]
    rw [receiveAll, List.foldl_cons, ← receiveAll, ih, telemetry_receive, registry]
    rfl

theorem registry_step (e : Engine) (action : Action) : (e.step action).registry = e.registry := by
  rcases e.step_parts action with rfl | rfl | rfl | ⟨_, rfl⟩ | beside
  · rcases runTicks_one e with ⟨-, same⟩ | ⟨-, ticked⟩
    · rw [step, same]
    · obtain ⟨_, _, _, _, _, same⟩ := ticked.rest
      rw [step, same]
  · obtain ⟨_, _, _, same⟩ := e.applyNext_eq
    rw [step, same]
  · rfl
  · rfl
  · exact beside.registry.trans (registry_receiveAll e _)

theorem telemetry_step (e : Engine) (action : Action) :
    (e.step action).vehicle.telemetry =
      e.vehicle.telemetry.receiveAll e.registry (e.items action) := by
  rcases e.step_parts action with rfl | rfl | rfl | ⟨_, rfl⟩ | beside
  · rcases runTicks_one e with ⟨-, same⟩ | ⟨-, ticked⟩
    · rw [step, same]
      rfl
    · obtain ⟨_, _, _, _, _, same⟩ := ticked.rest
      rw [step, same]
      rfl
  · rcases e.vehicle_applyNext with ⟨-, scrubbed⟩ | ⟨_, _, kept, -⟩
    · rw [step, scrubbed]
      rfl
    · rw [step, kept]
      rfl
  · rfl
  · rfl
  · rw [beside.vehicle, telemetry_receiveAll]

theorem telemetry_steps (e : Engine) (actions : List Action) :
    (e.steps actions).vehicle.telemetry =
      e.vehicle.telemetry.receiveAll e.registry (e.intake actions) := by
  induction actions generalizing e with
  | nil => rfl
  | cons action rest ih =>
    rw [intake, Telemetry.receiveAll, List.foldl_append, ← Telemetry.receiveAll,
      ← Telemetry.receiveAll, ← telemetry_step, ← registry_step e action]
    exact ih (e.step action)

theorem intake_append (e : Engine) (actions later : List Action) :
    e.intake (actions ++ later) = e.intake actions ++ (e.steps actions).intake later := by
  induction actions generalizing e with
  | nil => rfl
  | cons action rest ih =>
    rw [List.cons_append, intake, ih, intake, List.append_assoc]
    rfl

/-- Two engines that have taken in the same items know the same of the vehicle, whatever else has
happened to them.  The vehicle is whoever sent the first frame, for ever, and of each name it is
the last message that is known. -/
theorem telemetry_eq_of_intake_eq (r : Registry) (c c' : EngineConfig)
    (receiver receiver' : Receiver) (actions actions' : List Action)
    (same : (start r c receiver).intake actions = (start r c' receiver').intake actions') :
    let items := (start r c receiver).intake actions
    let known := ((start r c receiver).steps actions).vehicle.telemetry
    known = ((start r c' receiver').steps actions').vehicle.telemetry
      ∧ known.identity = (items.findSome? Except.toOption).map Frame.sender
      ∧ (∀ id ∈ known.identity, ∀ later,
        ((start r c receiver).steps (actions ++ later)).vehicle.telemetry.identity = some id)
      ∧ ∀ name, known.messages.get? name =
        (unpacked r items).reverse.find? (·.name = name) := by
  intro items known
  have told : known = Telemetry.empty.receiveAll r items := telemetry_steps _ actions
  have identity : known.identity = (items.findSome? Except.toOption).map Frame.sender := by
    rw [told, Telemetry.identity_receiveAll]
    exact Option.none_or
  refine ⟨?_, identity, ?_, fun name => ?_⟩
  · rw [told, telemetry_steps (start r c' receiver'), ← same]
    rfl
  · intro id isKnown later
    rw [telemetry_steps, Telemetry.identity_receiveAll, intake_append, List.findSome?_append]
    rw [identity] at isKnown
    obtain ⟨f, first, rfl⟩ := Option.map_eq_some_iff.mp isKnown
    rw [first]
    rfl
  · rw [told, Telemetry.messages_receiveAll]
    exact Option.or_none

theorem telemetry_eq_of_fading :
    let told := [arrival 0 [], arrival 148 [0, 0, 0, 0, 0, 0, 0, 0],
      arrival 22 ([0, 0, 0, 0, 2, 0, 255, 255] ++ List.replicate 16 65)]
    let e := (start scarce { paramRequestSpacing := 8000 } .ready).steps fading
    let e' := (start scarce { tick := 0, system := 1 } .gone).steps
      (.call (.engageOverride (.replicate 8 0) 0) :: told)
    (start scarce { paramRequestSpacing := 8000 } .ready).intake fading
        = (start scarce { tick := 0, system := 1 } .gone).intake
          (.call (.engageOverride (.replicate 8 0) 0) :: told)
      ∧ e.outbound.sent ≠ e'.outbound.sent
      ∧ e.vehicle.telemetry = e'.vehicle.telemetry
      ∧ e.vehicle.telemetry.identity = some ⟨1, 1⟩ := by
  intro told e e'
  have same : (start scarce { paramRequestSpacing := 8000 } .ready).intake fading
      = (start scarce { tick := 0, system := 1 } .gone).intake
        (.call (.engageOverride (.replicate 8 0) 0) :: told) := rfl
  obtain ⟨equal, identity, -, -⟩ := telemetry_eq_of_intake_eq scarce _ _ _ _ _ _ same
  have apart : e.outbound.sent ≠ e'.outbound.sent := by decide +kernel
  exact ⟨same, apart, equal, identity⟩

end Engine

end VehicleLink
