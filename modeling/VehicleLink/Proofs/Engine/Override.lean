import VehicleLink.Proofs.Engine.Sending

namespace VehicleLink.Engine

def latestOverride? (e : Engine) : List Action → Option (Option Override)
  | [] => none
  | action :: rest => ((e.step action).latestOverride? rest).or (e.overriding? action)

def Engaged (called : Option (Option Override)) (e : Engine) : Prop :=
  ∀ o ∈ e.channels, called = some (some o)

variable {e : Engine} {action : Action} {called : Option (Option Override)}

theorem channels_engageOverride (e : Engine) (channels : Channels) (timeout : Nat) :
    (e.engageOverride channels timeout).1.channels = some ⟨channels, timeout, e.now⟩ := by
  obtain ⟨_, same⟩ := e.engageOverride_eq channels timeout
  rw [same]

theorem channels_of_overriding {override : Option Override}
    (overriding : e.overriding? action = some override) :
    (e.step action).channels = override := by
  cases action with
  | call request =>
    cases request with
    | engageOverride channels timeout =>
      cases overriding
      exact channels_engageOverride e channels timeout
    | releaseOverride =>
      cases overriding
      rfl
    | _ => cases overriding
  | _ => cases overriding

theorem engaged_step (before : Engaged called e) (action : Action) :
    Engaged ((e.overriding? action).or called) (e.step action) := by
  intro o isEngaged
  by_cases resend : action = .resend
  · subst resend
    obtain ⟨_, _, _, same, kept⟩ := e.runOverride_eq
    rw [step, same] at isEngaged
    exact before o (kept o isEngaged)
  · cases overriding : e.overriding? action with
    | none =>
      rw [channels_step resend overriding] at isEngaged
      exact before o isEngaged
    | some override =>
      rw [channels_of_overriding overriding] at isEngaged
      exact congrArg some isEngaged

theorem engaged_steps (before : Engaged called e) (actions : List Action) :
    Engaged ((e.latestOverride? actions).or called) (e.steps actions) := by
  induction actions generalizing e called with
  | nil => exact before
  | cons action rest ih =>
    rw [latestOverride?, Option.or_assoc]
    exact ih (engaged_step before action)

def Upholds (e : Engine) (now : Nat) (t : Transmission) : Prop :=
  t.message.isOverride → t.time = now
    ∧ ∃ o ∈ e.channels, t.message = .overrideChannels o.channels ∧ o.hasExpired now = false

theorem upholds_resend : Emits (e.runOverride.Upholds e.now) e e.runOverride := by
  rcases e.runOverride_cases with ⟨_, _, same, -⟩ | ⟨overrideTimer, o, engaged, lasts, same⟩
  · rw [same]
    exact .of_sent_eq rfl
  · let handled := { e with overrideTimer }
    have kept : e.runOverride.channels = e.channels := by
      obtain ⟨_, sent⟩ := sendTo_eq handled e.target (.overrideChannels o.channels)
      rw [same, sent]
    have emits := emits_sendTo handled e.target (.overrideChannels o.channels)
    rw [← same] at emits
    refine emits.mono ?_
    rintro t ⟨message, time⟩ -
    exact ⟨time, o, kept ▸ engaged, message, lasts⟩

theorem upholds_engageOverride (channels : Channels) (timeout : Nat) :
    Emits ((e.engageOverride channels timeout).1.Upholds e.now) e
      (e.engageOverride channels timeout).1 := by
  let engaged := { e with channels := some ⟨channels, timeout, e.now⟩ }
  refine (emits_sendTo engaged engaged.target (.overrideChannels channels)).mono ?_
  rintro t ⟨message, time⟩ -
  have fresh : (⟨channels, timeout, e.now⟩ : Override).hasExpired e.now = false := by
    simp [Override.hasExpired]
  exact ⟨time, _, channels_engageOverride e channels timeout, message, fresh⟩

theorem upholds_step (e : Engine) (action : Action) :
    Emits ((e.step action).Upholds e.now) e (e.step action) := by
  by_cases resend : action = .resend
  · subst resend
    exact upholds_resend
  by_cases engages : ∃ channels timeout, action = .call (.engageOverride channels timeout)
  · obtain ⟨channels, timeout, rfl⟩ := engages
    exact upholds_engageOverride channels timeout
  let allows (_ : Target) (m : Outgoing) : Prop := m.isOverride = false
  have others (a : Attempt) (isTried : a ∈ e.attempted action) : allows a.target a.message :=
    (Prompts.of_mem isTried).isOverride resend fun channels timeout same =>
      engages ⟨channels, timeout, same⟩
  refine ((e.tries_step action).emits_of others).mono fun t other isOverride => ?_
  cases other.symm.trans isOverride

theorem le_of_not_hasExpired {o : Override} {now : Nat} (lasts : o.hasExpired now = false)
    (limited : o.timeout ≠ 0) : now ≤ o.since + o.timeout := by
  have within : now - o.since ≤ o.timeout := by simpa [Override.hasExpired, limited] using lasts
  omega

/-- A frame that overrides the channels holds those that were asked for last: it follows no
release, and comes no later than the timeout of its own request. -/
theorem emits_latest_override (c : EngineConfig) (receiver : Receiver) (actions : List Action)
    (action : Action) :
    let begun := start Dialect.builtin c receiver
    let e := begun.steps actions
    Emits
      (fun t => ∃ p msg, t.Bears c p msg ∧
        (msg.name = "RC_CHANNELS_OVERRIDE" → t.time = e.now
          ∧ ∃ o, begun.latestOverride? (actions ++ [action]) = some (some o)
            ∧ (∀ i, (h : i < 8) →
              msg.get? ("chan" ++ toString (i + 1) ++ "_raw") = some (.u16 o.channels[i]))
            ∧ (o.timeout ≠ 0 → t.time ≤ o.since + o.timeout)))
      e (e.step action) := by
  intro begun e
  have run := begun.tries_steps actions
  have idle : Engaged none begun := nofun
  have engaged : Engaged (begun.latestOverride? (actions ++ [action])) (e.step action) := by
    have h := engaged_steps idle (actions ++ [action])
    rwa [Option.or_none, steps_append] at h
  refine ((e.tries_step action).emits.and (e.upholds_step action)).mono ?_
  rintro t ⟨⟨prints, -⟩, upholds⟩
  obtain ⟨p, msg, bears⟩ := bears_of_prints run.kept.1 prints
  have configured : e.config = c := run.kept.2
  refine ⟨p, msg, configured ▸ bears, fun isNamed => ?_⟩
  have isOverride := Outgoing.isOverride_of_name (bears.meant.name.symm.trans isNamed)
  obtain ⟨time, o, isEngaged, message, lasts⟩ := upholds isOverride
  have content := bears.meant.content
  rw [message] at content
  exact ⟨time, o, engaged o isEngaged, content, fun limited =>
    time ▸ le_of_not_hasExpired lasts limited⟩

end VehicleLink.Engine
