import VehicleLink.Proofs.Engine.Errands
import VehicleLink.Proofs.Engine.Sending
import VehicleLink.Proofs.Engine.Views

namespace VehicleLink

deriving instance DecidableEq for Result, Completion

namespace Occurrence

variable (name : String) (value : Single) (window : List Occurrence)

def Echoed : Prop := ∃ p ∈ (reports window).find? (·.name = name), p.value.same value

/-- Nothing is reported of the parameter, and nothing that is known is dropped. -/
def Untouched : Prop :=
  (reports window).find? (·.name = name) = none ∧ window.any isReset = false

end Occurrence

namespace Engine

theorem readBack_eq_ok_iff {e : Engine} {name : String} {value : Single} :
    e.readBack name value = .ok () ↔ ∃ held ∈ e.params.get? name, held.same value := by
  rw [readBack, param?]
  cases e.params.get? name with
  | none => simp
  | some held => simp

open Occurrence in
theorem readBack_steps (e : Engine) (actions : List Action) (name : String) (value : Single) :
    (e.steps actions).readBack name value = .ok () ↔
      Echoed name value (e.history actions)
        ∨ Untouched name (e.history actions) ∧ ∃ held ∈ e.params.get? name, held.same value := by
  have remembers : (e.steps actions).params = (e.memory.replay (e.history actions)).params :=
    congrArg Memory.params (memory_steps e actions)
  rw [readBack_eq_ok_iff, remembers, Memory.get?_replay, Echoed, Untouched]
  cases (reports (e.history actions)).find? (·.name = name) with
  | some p => simp
  | none => cases (e.history actions).any isReset <;> simp [memory]

theorem told_setParam {e : Engine} (issued : Issued e) (name : String) (value : Single)
    (actions : List Action) {d : Completion} (isSet : d.result.isSet) (own : d.id = e.nextId) :
    let e₁ := e.step (.call (.setParam name value))
    d ∈ (e₁.steps actions).finished →
      (∃ cause, d.result = .set (.error (.transport cause)))
        ∨ (∃ t, e₁.outbound.sent = t :: e.outbound.sent ∧ t.message = .setParameter name value
            ∧ t.target = e.target)
          ∧ ∃ between, e₁.ToldAfter between actions d ∧ d.time = (e₁.steps between).now
            ∧ e.now + Timer.span e.config.paramSettle.toNat ≤ d.time
            ∧ d.result = .set ((e₁.steps between).readBack name value) := by
  intro e₁ isDone
  obtain ⟨⟨nextId, now, -⟩, told⟩ := e.step_setParam name value
  have issues : e.nextId < e₁.nextId := nextId ▸ Nat.lt_succ_self _
  rcases told with ⟨cause, jobs, finished⟩ | ⟨onLink, ⟨zero, jobs, finished⟩ | ⟨finished, jobs⟩⟩
  · rw [issued.told_once issues jobs finished isDone isSet own]
    exact .inl ⟨cause, rfl⟩
  · rw [issued.told_once issues jobs finished isDone isSet own]
    refine .inr ⟨onLink, [], .inl ⟨rfl, finished ▸ List.mem_cons_self⟩, now.symm, ?_, rfl⟩
    rw [zero]
    exact Nat.le_refl _
  · obtain ⟨between, toldAfter, awake, read⟩ :=
      issued.told_later issues jobs finished isDone isSet own
    obtain ⟨_, _, ⟨⟩, rfl⟩ := read
    exact .inr ⟨onLink, between, toldAfter, rfl, awake, rfl⟩

open Occurrence in
/-- Setting a parameter succeeds if the newest of what was reported of it after the request was put
on the link, and before it is read back, is the value; or if nothing was reported and the name stood
for the value all along. -/
theorem set_ok_iff (r : Registry) (c : EngineConfig) (receiver : Receiver) (before : List Action)
    (name : String) (value : Single) (after : List Action) (done : Completion)
    (result : Except ParamError Unit) :
    let e := (start r c receiver).steps before
    let e₁ := e.step (.call (.setParam name value))
    done ∈ (e₁.steps after).finished → done.id = e.nextId → done.result = .set result →
      (∃ cause, result = .error (.transport cause))
        ∨ (∃ t, e₁.outbound.sent = t :: e.outbound.sent ∧ t.message = .setParameter name value
            ∧ t.target = e.target)
          ∧ ∃ between, e₁.ToldAfter between after done ∧ done.time = (e₁.steps between).now
            ∧ e.now + Timer.span c.paramSettle.toNat ≤ done.time
            ∧ (result = .ok () ↔ Echoed name value (e₁.history between)
              ∨ Untouched name (e₁.history between)
                ∧ ∃ held ∈ e.params.get? name, held.same value) := by
  intro e e₁ isDone own isSet
  have issued : Issued e := issued_steps r c receiver before
  have configured : e.config = c := ((start r c receiver).tries_steps before).kept.2
  obtain ⟨⟨-, -, params⟩, -⟩ := e.step_setParam name value
  rcases told_setParam issued name value after (by rw [isSet]; rfl) own isDone with
    ⟨cause, failed⟩ | ⟨onLink, between, toldAfter, time, waited, told⟩
  · rw [isSet] at failed
    exact .inl ⟨cause, Result.set.inj failed⟩
  · rw [isSet] at told
    rw [configured] at waited
    refine .inr ⟨onLink, between, toldAfter, time, waited, ?_⟩
    rw [Result.set.inj told, readBack_steps, params]

def settable : Registry :=
  ⟨[⟨22, "PARAM_VALUE", [.scalar "param_value" .single, .array "param_id" .char 16,
      .scalar "param_count" .u16, .scalar "param_index" .u16], 220⟩,
    ⟨23, "PARAM_SET", [.scalar "target_system" .u8, .scalar "target_component" .u8,
      .array "param_id" .char 16, .scalar "param_value" .single, .scalar "param_type" .u8], 168⟩],
    by decide⟩

open Occurrence in
theorem set_ok_of_echo :
    let e := (start settable {} .ready).steps [reporting 63 [0, 0]]
    let e₁ := e.step (.call (.setParam "A" ⟨0x40000000⟩))
    let after := [reporting 64 [255, 255], .call (.advance 250), .errands [0]]
    let done : Completion := ⟨0, 250, .set (.ok ())⟩
    (done ∈ (e₁.steps after).finished ∧ done.id = e.nextId)
      ∧ ∃ between, e₁.ToldAfter between after done
        ∧ Echoed "A" ⟨0x40000000⟩ (e₁.history between) := by
  intro e e₁ after done
  have isDone : done ∈ (e₁.steps after).finished := by decide +kernel
  have own : done.id = e.nextId := by decide +kernel
  refine ⟨⟨isDone, own⟩, ?_⟩
  rcases set_ok_iff settable {} .ready [reporting 63 [0, 0]] "A" ⟨0x40000000⟩ after done (.ok ())
    isDone own rfl with ⟨_, ⟨⟩⟩ | ⟨-, between, toldAfter, -, -, succeeds⟩
  rcases succeeds.mp rfl with echoed | ⟨-, held⟩
  · exact ⟨between, toldAfter, echoed⟩
  · exact absurd held (by decide +kernel)

theorem set_ok_of_silence :
    let e := (start settable {} .ready).steps [reporting 64 [0, 0]]
    let e₁ := e.step (.call (.setParam "A" ⟨0x40000000⟩))
    let after := [.call (.advance 250), .errands [0]]
    let done : Completion := ⟨0, 250, .set (.ok ())⟩
    e.nextId = 0 ∧ (e₁.outbound.sent.head?.map Transmission.message)
        = some (.setParameter "A" ⟨0x40000000⟩)
      ∧ done ∈ (e₁.steps after).finished ∧ e₁.history after = [] := by
  decide +kernel

end Engine

end VehicleLink
