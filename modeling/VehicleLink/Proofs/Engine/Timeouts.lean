import VehicleLink.Proofs.Engine.Punctuality

namespace VehicleLink.Engine

theorem latest?_append (e : Engine) (actions later : List Action) :
    e.latest? (actions ++ later) = ((e.steps actions).latest? later).or (e.latest? actions) := by
  induction actions generalizing e with
  | nil => exact Option.or_none.symm
  | cons action rest ih =>
    rw [List.cons_append, latest?, ih, latest?, Option.or_assoc]
    rfl

def Paced (found : Option Engine) (e : Engine) : Prop :=
  ∀ p ∈ e.handler.pass, e.now ≤ p.wake ∧ ∃ f ∈ found, e.config = f.config ∧ f.Paces p

variable {found : Option Engine} {e : Engine} {action : Action}

theorem Paced.asks_tick (h : Paced found e) :
    Paced ((e.finds? .tick).or found) (e.step .tick)
      ∧ Asks (fun index time => ∃ f ∈ (e.finds? .tick).or found,
          e.config = f.config ∧ f.Schedules index time) e (e.step .tick) := by
  rcases runTicks_one e with ⟨early, same⟩ | ⟨due, ticked⟩
  · rw [step, same, finds?, if_neg (by simp [early])]
    exact ⟨h, .refl e⟩
  · obtain ⟨paced, asks⟩ := e.asks_tick due
    have config := (e.tries_step .tick).kept.2
    have now : (e.step .tick).now = e.now := e.now_runTicks 1
    rw [finds?, if_pos due]
    refine ⟨fun p isPass => ?_, asks.mono fun t made index sent => ?_⟩
    · obtain ⟨paces, asleep⟩ := paced p isPass
      exact ⟨now ▸ Nat.le_of_lt asleep, _, rfl, config, paces⟩
    · exact ⟨_, rfl, rfl, made index sent⟩

theorem Paced.asks_resume (h : Paced found e) :
    Paced found (e.step .resume)
      ∧ Asks (fun index time => ∃ f ∈ found, e.config = f.config ∧ f.Schedules index time) e
        (e.step .resume) := by
  cases isPass : e.handler.pass with
  | none =>
    have same : e.step .resume = e := by rw [step, resumePass, isPass]
    rw [same]
    exact ⟨h, .refl e⟩
  | some p =>
    obtain ⟨notPast, f, isFound, config, paces⟩ := h p isPass
    have paced : ∀ p' ∈ e.handler.pass, f.Paces p' ∧ e.now ≤ p'.wake := by
      intro p' isPass'
      cases isPass.symm.trans isPass'
      exact ⟨paces, notPast⟩
    obtain ⟨paced', asks⟩ := e.asks_resume config paced
    have config' := (e.tries_step .resume).kept.2
    have now : (e.step .resume).now = e.now := e.now_resumePass
    refine ⟨fun p' isPass' => ?_, asks.mono fun t made index sent => ?_⟩
    · obtain ⟨paces', asleep⟩ := paced' p' isPass'
      exact ⟨now ▸ Nat.le_of_lt asleep, f, isFound, config'.trans config, paces'⟩
    · exact ⟨f, isFound, config, made index sent⟩

theorem Paced.step (h : Paced found e) (heeds : e.Heeds action) :
    Paced ((e.finds? action).or found) (e.step action) := by
  cases steady : action.isSteady with
  | true =>
    have nothing : e.finds? action = none := by
      cases action with
      | tick => cases steady
      | _ => rfl
    have undisturbed := e.undisturbed_step steady
    have config := (e.tries_step action).kept.2
    rw [nothing, Option.none_or]
    intro p isPass
    rcases undisturbed.handler with same | stopped
    · obtain ⟨notPast, f, isFound, config', paces⟩ := h p (same ▸ isPass)
      exact ⟨undisturbed.now ▸ notPast, f, isFound, config.trans config', paces⟩
    · rw [stopped] at isPass
      cases isPass
  | false =>
    rw [Action.isSteady.eq_def] at steady
    split at steady
    · exact h.asks_tick.1
    · exact h.asks_resume.1
    · exact fun p isPass => ⟨heeds _ rfl p isPass, (h p isPass).2⟩
    · cases steady

theorem Paced.steps (h : Paced found e) {actions : List Action} (punctual : e.Punctual actions) :
    Paced ((e.latest? actions).or found) (e.steps actions) := by
  induction actions generalizing e found with
  | nil => exact h
  | cons action rest ih =>
    rw [latest?, Option.or_assoc]
    exact ih (h.step punctual.1) punctual.2

theorem Paced.asks (h : Paced found e) (handles : action = .tick ∨ action = .resume) :
    Asks (fun index time => ∃ f ∈ (e.finds? action).or found,
      e.config = f.config ∧ f.Schedules index time) e (e.step action) := by
  rcases handles with rfl | rfl
  · exact h.asks_tick.2
  · exact h.asks_resume.2

/-- The request for a missing parameter, in a pass that begins in the state `f` and in a round that
began at `started`.  As number `k` it waits for `k` pauses, and it is in time exactly if what was
left of the timeout covers them. -/
structure Requested (c : EngineConfig) (f : Engine) (started k : Nat) (index : UInt16)
    (time : Nat) : Prop where
  begun : f.params.startedAt = some started
  inTime : f.now ≤ started + c.paramTimeout.toNat
  missing : f.params.missing[k]? = some index
  paused : time = f.now + k * Timer.span c.paramRequestSpacing.toNat
  kept : time ≤ started + c.paramTimeout.toNat ↔
    k * Timer.span c.paramRequestSpacing.toNat ≤ started + c.paramTimeout.toNat - f.now

theorem Schedules.requested {c : EngineConfig} {f : Engine} {index : UInt16} {time : Nat}
    (h : f.Schedules index time) (config : f.config = c) :
    ∃ started k, Requested c f started k index time := by
  obtain ⟨⟨started, begun, inTime⟩, k, missing, time⟩ := h
  rw [config] at inTime
  rw [pause, config] at time
  exact ⟨started, k, begun, inTime, missing, time, by omega⟩

/-- As long as no pass sleeps longer than its pause, which is so in every run of requests, the
handler asks for a parameter in time exactly if the pauses before it leave it the time. -/
theorem requests_on_schedule (r : Registry) (c : EngineConfig) (receiver : Receiver) :
    (∀ actions action, (start r c receiver).Punctual actions → action = .tick ∨ action = .resume →
        let e := (start r c receiver).steps actions
        Asks
          (fun index time => ∃ f ∈ (start r c receiver).latest? (actions ++ [action]),
            ∃ started k, Requested c f started k index time)
          e (e.step action))
      ∧ ∀ requests, (start r c receiver).Leads ((launch r c receiver).run requests) := by
  refine ⟨fun actions action punctual handles => ?_, Leads.launch r c receiver⟩
  have idle : Paced none (start r c receiver) := nofun
  have paced := idle.steps punctual
  have configured := ((start r c receiver).tries_steps actions).kept.2
  rw [Option.or_none] at paced
  refine (paced.asks handles).mono fun t made index asks => ?_
  obtain ⟨f, isFound, same, scheduled⟩ := made index asks
  refine ⟨f, ?_, scheduled.requested (same.symm.trans configured)⟩
  rw [latest?_append, latest?, latest?, Option.none_or]
  exact isFound

def lingering : List Action :=
  [.watch [0], arrival 0 [], .deliver, arrival 148 [0, 0, 0, 0, 0, 0, 0, 0], .tick,
    arrival 22 ([0, 0, 0, 0, 2, 0, 255, 255] ++ List.replicate 16 65),
    .call (.advance 500), .tick, .call (.advance 600)]

theorem late_of_lingering :
    ¬ ∀ (r : Registry) (c : EngineConfig) (receiver : Receiver) (actions : List Action),
      (start r c receiver).Punctual actions →
        let e := (start r c receiver).steps actions
        ∀ started ∈ e.params.startedAt,
          Asks (fun _ time => time ≤ started + c.paramTimeout.toNat) e (e.step .resume) := by
  intro claim
  let c : EngineConfig := { paramTimeout := 1000, paramRequestSpacing := 600 }
  let e := (start scarce c .ready).steps lingering
  have punctual : (start scarce c .ready).Punctual lingering := by decide +kernel
  have begun : 0 ∈ e.params.startedAt := by decide +kernel
  have sent : e.outbound.sent.length < (e.step .resume).outbound.sent.length := by decide +kernel
  have last : (e.step .resume).outbound.sent.head?.map (fun t => (t.message, t.time)) =
      some (.requestParameter 1, 1100) := by decide +kernel
  have asks : Asks (fun _ time => time ≤ 0 + 1000) e (e.step .resume) :=
    claim scarce c .ready lingering punctual 0 begun
  exact absurd (asks.of_last sent last) (by decide)

end VehicleLink.Engine
