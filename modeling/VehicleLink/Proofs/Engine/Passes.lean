import VehicleLink.Proofs.Engine.Phases

/-! What lets the state handler send, in any order of the activities.  A tick acts on the state
it finds, but a pass that was asleep goes on with what was missing when it began. -/

namespace VehicleLink.Engine

theorem not_justifies_of_offline {e : Engine} (offline : e.vehicle.phase = .offline)
    (m : Outgoing) : ¬ e.Justifies m := by
  intro justified
  cases justified with
  | capabilities found => cases offline.symm.trans found
  | parameters found => cases offline.symm.trans found
  | parameter found _ => cases offline.symm.trans found
  | queued found _ => cases offline.symm.trans found

theorem justifies_requestParameter_iff {e : Engine} {index : UInt16} :
    e.Justifies (.requestParameter index)
      ↔ e.vehicle.phase = .syncingParameters ∧ index ∈ e.params.missing := by
  constructor
  · rintro (_ | _ | ⟨found, isMissing⟩ | _)
    exact ⟨found, isMissing⟩
  · rintro ⟨found, isMissing⟩
    exact .parameter found isMissing

def finds? (e : Engine) : Action → Option Engine
  | .tick => if e.ticks then some e.advancePhase else none
  | _ => none

def latest? (e : Engine) : List Action → Option Engine
  | [] => none
  | action :: rest => ((e.step action).latest? rest).or (e.finds? action)

/-- A pass under way asks for nothing but what the state `found` lets it ask for. -/
def Foreseen (found : Option Engine) (e : Engine) : Prop :=
  ∀ p ∈ e.handler.pass, ∃ f ∈ found,
    f.vehicle.phase = .syncingParameters ∧ p.rest ⊆ f.params.missing

theorem foreseen_step {found : Option Engine} {e : Engine} (action : Action)
    (h : Foreseen found e) : Foreseen ((e.finds? action).or found) (e.step action) := by
  by_cases tick : action = .tick
  · subst tick
    rcases runTicks_one e with ⟨early, same⟩ | ⟨due, ticked⟩
    -- The tick is not due, or a pass holds it up.
    · rw [step, same, finds?, if_neg (by simp [early])]
      exact h
    · rw [step, finds?, if_pos due]
      intro p isPass
      obtain ⟨phase, -, within⟩ := ticked.pass p isPass
      obtain ⟨_, _, _, _, _, same⟩ := ticked.rest
      rw [same] at phase
      exact ⟨e.advancePhase, rfl, phase, within⟩
  · have nothing : e.finds? action = none := by
      cases action with
      | tick => exact absurd rfl tick
      | _ => rfl
    rw [nothing]
    intro p' isPass'
    obtain ⟨p, isPass, -, within⟩ := (e.spares_step tick).pass p' isPass'
    obtain ⟨f, isFound, phase, missing⟩ := h p isPass
    exact ⟨f, isFound, phase, List.Subset.trans within missing⟩

theorem foreseen_steps {found : Option Engine} {e : Engine} (actions : List Action)
    (h : Foreseen found e) : Foreseen ((e.latest? actions).or found) (e.steps actions) := by
  induction actions generalizing e found with
  | nil => exact h
  | cons action rest ih =>
    rw [latest?, Option.or_assoc]
    exact ih (foreseen_step action h)

theorem emits_tick (e : Engine) :
    Emits (e.advancePhase.Justifies ·.message) e (e.step .tick) := by
  rcases runTicks_one e with ⟨-, same⟩ | ⟨-, ticked⟩
  · rw [step, same]
    exact .refl e
  · exact ticked.emits

theorem emits_resume {found : Option Engine} {e : Engine} (h : Foreseen found e) :
    Emits
      (fun t => ∃ f ∈ found, ∃ index, t.message = .requestParameter index
        ∧ f.Justifies (.requestParameter index))
      e (e.step .resume) := by
  let allows (_ : Target) (m : Outgoing) : Prop :=
    ∃ f ∈ found, ∃ index, m = .requestParameter index ∧ f.Justifies (.requestParameter index)
  have allowed (a : Attempt) (isTried : a ∈ e.resumed) : allows a.target a.message := by
    obtain ⟨p, isPass, -, index, isMember, asks⟩ := of_mem_resumed isTried
    obtain ⟨f, isFound, phase, within⟩ := h p isPass
    exact ⟨f, isFound, index, asks, .parameter phase (within isMember)⟩
  exact (tries_resumePass e).emits_of allowed

/-- All that the handler sends is justified by the state it found at the latest tick.  At a tick
that is the present state.  A request of a pass that goes on is justified at present as long as
the phase has not changed and the parameter has not arrived. -/
theorem emits_handler (r : Registry) (c : EngineConfig) (receiver : Receiver)
    (actions : List Action) :
    let e := (start r c receiver).steps actions
    Emits (e.advancePhase.Justifies ·.message) e (e.step .tick)
      ∧ Emits
        (fun t => ∃ found ∈ (start r c receiver).latest? actions, ∃ index,
          t.message = .requestParameter index ∧ found.Justifies t.message
            ∧ (e.Justifies t.message
              ↔ e.vehicle.phase = .syncingParameters ∧ index ∈ e.params.missing))
        e (e.step .resume) := by
  intro e
  have unfounded : Foreseen none (start r c receiver) := nofun
  have foreseen : Foreseen ((start r c receiver).latest? actions) e := by
    have h := foreseen_steps actions unfounded
    rwa [Option.or_none] at h
  refine ⟨e.emits_tick, (emits_resume foreseen).mono ?_⟩
  rintro t ⟨f, isFound, index, same, justified⟩
  rw [same]
  exact ⟨f, isFound, index, rfl, justified, justifies_requestParameter_iff⟩

def scarce : Registry :=
  ⟨[⟨0, "HEARTBEAT", [], 50⟩, ⟨20, "PARAM_REQUEST_READ", [.scalar "param_index" .i16], 214⟩,
    ⟨22, "PARAM_VALUE", [.scalar "param_value" .single, .array "param_id" .char 16,
      .scalar "param_count" .u16, .scalar "param_index" .u16], 220⟩,
    ⟨148, "AUTOPILOT_VERSION", [.scalar "capabilities" .u64], 178⟩], by decide⟩

def arrival (kind : UInt8) (payload : List UInt8) : Action :=
  .receive (.ok ⟨⟨⟨.ofNat payload.length, 0, 1, 1, kind⟩, payload, 0⟩, []⟩)

/-- Of two parameters neither arrives; a pass asks for the first, and no heartbeat is seen any
more before it asks for the second. -/
def fading : List Action :=
  [.watch [0], arrival 0 [], .deliver, arrival 148 [0, 0, 0, 0, 0, 0, 0, 0], .tick,
    arrival 22 ([0, 0, 0, 0, 2, 0, 255, 255] ++ List.replicate 16 65),
    .call (.advance 500), .tick, .call (.advance 2500), .watch [0], .call (.advance 3000),
    .watch [0], .deliver, .call (.advance 3000)]

theorem unjustified_of_fading :
    let e := (start scarce { paramRequestSpacing := 8000 } .ready).steps fading
    e.vehicle.phase = .offline ∧ ¬ Emits (e.Justifies ·.message) e (e.step .resume) := by
  intro e
  have offline : e.vehicle.phase = .offline := by decide +kernel
  have sent : (e.step .resume).outbound.sent.length = e.outbound.sent.length + 1 := by
    decide +kernel
  refine ⟨offline, ?_⟩
  rintro ⟨new, grown, justified⟩
  cases new with
  | nil => simp [grown] at sent
  | cons t rest => exact not_justifies_of_offline offline _ (justified t List.mem_cons_self)

end VehicleLink.Engine
