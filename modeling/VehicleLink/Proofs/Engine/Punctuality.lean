import VehicleLink.Proofs.Engine.Rounds

/-! Orders of the activities in which no pass sleeps longer than its pause.  Every run of requests
is one of these. -/

namespace VehicleLink

theorem le_of_earliest? {times : List Nat} {now target t due : Nat}
    (h : earliest? times now target = some t) (isDue : due ∈ times) (ahead : now < due) :
    t ≤ due := by
  by_cases within : due ≤ target
  · exact (List.min?_eq_some_iff.mp h).2 due (List.mem_filter.mpr ⟨isDue, by simp [ahead, within]⟩)
  · exact Nat.le_trans (lt_and_le_of_earliest? h).2 (Nat.le_of_not_le within)

theorem lt_of_earliest?_eq_none {times : List Nat} {now target due : Nat}
    (h : earliest? times now target = none) (isDue : due ∈ times) (ahead : now < due) :
    target < due := by
  rw [earliest?, List.min?_eq_none_iff, List.filter_eq_nil_iff] at h
  simpa [ahead] using h due isDue

namespace Engine

structure Undisturbed (e e' : Engine) : Prop where
  now : e'.now = e.now
  handler : e'.handler = e.handler ∨ e'.handler = ⟨none, none⟩

namespace Undisturbed

variable {e e' e'' : Engine}

theorem of_eq (now : e'.now = e.now) (handler : e'.handler = e.handler) : Undisturbed e e' :=
  ⟨now, .inl handler⟩

theorem trans (h : Undisturbed e e') (h' : Undisturbed e' e'') : Undisturbed e e'' := by
  refine ⟨h'.now.trans h.now, ?_⟩
  rcases h'.handler with same | stopped
  · exact same ▸ h.handler
  · exact .inr stopped

theorem of_hears (h : Hears e e') : Undisturbed e e' := by
  obtain ⟨_, _, _, _, _, _, _, _, rfl⟩ := h.rest
  exact of_eq rfl rfl

theorem applyNext (e : Engine) : Undisturbed e e.applyNext := by
  obtain ⟨_, _, _, same⟩ := e.applyNext_eq
  rw [same]
  exact of_eq rfl rfl

theorem applyEvents (e : Engine) : Undisturbed e e.applyEvents := by
  rw [Engine.applyEvents]
  split
  · exact of_eq rfl rfl
  · next running =>
    clear running
    generalize e.events = events
    induction events generalizing e with
    | nil => exact of_eq rfl rfl
    | cons _ rest ih => exact (applyNext e).trans (ih _)

end Undisturbed

def Action.isSteady : Action → Bool
  | .tick | .resume | .call (.advance _) => false
  | _ => true

theorem undisturbed_step (e : Engine) {action : Action} (steady : action.isSteady) :
    Undisturbed e (e.step action) := by
  rcases e.step_parts action with rfl | rfl | rfl | ⟨_, rfl⟩ | keeps
  · cases steady
  · exact .applyNext e
  · exact .of_eq rfl rfl
  · exact .of_eq rfl rfl
  · have received := Undisturbed.of_hears (.receiveAll e (e.items action))
    refine received.trans ⟨keeps.now ?_, keeps.handler ?_⟩
    · rintro ms rfl
      cases steady
    · rintro rfl
      cases steady

def Action.wait? : Action → Option Nat
  | .call (.advance ms) => some ms
  | _ => none

def Heeds (e : Engine) (action : Action) : Prop :=
  ∀ ms ∈ action.wait?, ∀ p ∈ e.handler.pass, e.now + ms ≤ p.wake

instance (e : Engine) (action : Action) : Decidable (e.Heeds action) :=
  inferInstanceAs (Decidable (∀ ms ∈ action.wait?, ∀ p ∈ e.handler.pass, e.now + ms ≤ p.wake))

/-- No pass sleeps longer than its pause. -/
def Punctual (e : Engine) : List Action → Prop
  | [] => True
  | action :: rest => e.Heeds action ∧ (e.step action).Punctual rest

instance decidablePunctual (e : Engine) : (actions : List Action) → Decidable (e.Punctual actions)
  | [] => .isTrue trivial
  | action :: rest =>
    have := (e.step action).decidablePunctual rest
    inferInstanceAs (Decidable (e.Heeds action ∧ (e.step action).Punctual rest))

theorem punctual_append {e : Engine} {actions later : List Action} :
    e.Punctual (actions ++ later) ↔ e.Punctual actions ∧ (e.steps actions).Punctual later := by
  induction actions generalizing e with
  | nil => exact (iff_of_eq (true_and _)).symm
  | cons action rest ih =>
    rw [List.cons_append, Punctual, ih, ← and_assoc]
    rfl

def Asleep (e : Engine) : Prop := ∀ p ∈ e.handler.pass, e.now < p.wake

theorem Asleep.undisturbed {e e' : Engine} (h : Asleep e) (undisturbed : Undisturbed e e') :
    Asleep e' := by
  intro p isPass
  rw [undisturbed.now]
  rcases undisturbed.handler with same | stopped
  · exact h p (same ▸ isPass)
  · rw [stopped] at isPass
    cases isPass

theorem asleep_requestMissing (e : Engine) (target : Target) (indices : List UInt16) :
    Asleep (e.requestMissing target indices) := by
  intro p isPass
  obtain ⟨paused, wake, -⟩ := pass_requestMissing target indices e p isPass
  obtain ⟨_, _, same, -⟩ := requestMissing_eq target indices e
  rw [same, wake]
  exact Nat.lt_add_of_pos_right paused

theorem asleep_resumePass (e : Engine) : Asleep e.resumePass := by
  rw [resumePass]
  split
  · next p isPass =>
    split
    · exact e.asleep_requestMissing _ _
    · next asleep =>
      intro p' isPass'
      cases isPass.symm.trans isPass'
      exact Nat.not_le.mp asleep
  · next idle =>
    intro p isPass
    cases idle.symm.trans isPass

theorem asleep_tickHandler {e : Engine} (t : Timer) (idle : e.handler.pass = none) :
    Asleep (e.tickHandler t) := by
  intro p isPass
  obtain ⟨_, _, _, _, _, same⟩ := (ticks_tickHandler e t idle).rest
  rw [tickHandler] at isPass
  let found := { e with handler.timer := some (t.next e.now) }
  have asleep := (asks_actOnPhase found.advancePhase idle found.unsynced_advancePhase).1 p isPass
  rw [same]
  exact asleep.2

theorem asleep_runTicks {e : Engine} (h : Asleep e) (fuel : Nat) : Asleep (e.runTicks fuel) := by
  induction fuel generalizing e with
  | zero => exact h
  | succ fuel ih =>
    rw [runTicks.eq_def]
    dsimp only
    split
    · next idle _ =>
      split
      · exact ih (asleep_tickHandler _ idle)
      · exact h
    · exact h

theorem asleep_settle (e : Engine) : Asleep e.settle := by
  have handled : Asleep e.checkHealth.runHandler := asleep_runTicks (asleep_resumePass _) _
  have resent (e : Engine) : Undisturbed e (e.step .resend) := e.undisturbed_step rfl
  have ran (e : Engine) : Undisturbed e e.runJobs := by
    have h : Undisturbed e (e.step (.errands (e.jobs.map Job.id))) := e.undisturbed_step rfl
    rwa [step, runErrands_all] at h
  exact ((handled.undisturbed (resent _)).undisturbed (ran _)).undisturbed (.applyEvents _)

theorem wake_mem_due (e : Engine) {p : Pass} (isPass : p ∈ e.handler.pass) : p.wake ∈ e.due := by
  have isPass : e.handler.pass = some p := isPass
  simp [due, isPass]

theorem heeds_of_not_waits (e : Engine) {action : Action}
    (noWait : ∀ ms, action ≠ .call (.advance ms)) : e.Heeds action := by
  intro ms isWait
  rw [Action.wait?.eq_def] at isWait
  split at isWait
  · next ms' => exact absurd rfl (noWait ms')
  · cases isWait

theorem now_le_step (e : Engine) (action : Action) : e.now ≤ (e.step action).now := by
  cases steady : action.isSteady with
  | true => exact Nat.le_of_eq (e.undisturbed_step steady).now.symm
  | false =>
    rw [Action.isSteady.eq_def] at steady
    split at steady
    · exact Nat.le_of_eq (e.now_runTicks 1).symm
    · exact Nat.le_of_eq e.now_resumePass.symm
    · exact Nat.le_add_right _ _
    · cases steady

theorem now_le_steps (e : Engine) (actions : List Action) : e.now ≤ (e.steps actions).now := by
  induction actions generalizing e with
  | nil => exact Nat.le_refl _
  | cons action rest ih => exact Nat.le_trans (e.now_le_step action) (ih _)

def Leads (e e' : Engine) : Prop := ∃ actions, e.Punctual actions ∧ e.steps actions = e'

namespace Leads

variable {e e' e'' : Engine}

theorem refl (e : Engine) : e.Leads e := ⟨[], trivial, rfl⟩

theorem trans (h : e.Leads e') (h' : e'.Leads e'') : e.Leads e'' := by
  obtain ⟨actions, punctual, rfl⟩ := h
  obtain ⟨later, punctual', rfl⟩ := h'
  exact ⟨actions ++ later, punctual_append.mpr ⟨punctual, punctual'⟩, steps_append e actions later⟩

theorem step {action : Action} (heeds : e.Heeds action) : e.Leads (e.step action) :=
  ⟨[action], ⟨heeds, trivial⟩, rfl⟩

/-- An order of activities that takes no time need not wait for anything. -/
theorem of_reaches (h : e.Reaches e') (now : e'.now = e.now) : e.Leads e' := by
  obtain ⟨actions, rfl⟩ := h
  induction actions generalizing e with
  | nil => exact refl e
  | cons action rest ih =>
    change e.Leads ((e.step action).steps rest)
    have first := e.now_le_step action
    have later := (e.step action).now_le_steps rest
    have same : (e.step action).now = e.now := by
      have last : ((e.step action).steps rest).now = e.now := now
      omega
    have rest' := ih (now.trans same.symm)
    by_cases waits : ∃ ms, action = .call (.advance ms)
    · -- Waiting for no time at all may as well be left out.
      obtain ⟨ms, rfl⟩ := waits
      have none : e.step (.call (.advance ms)) = e := congrArg (fun now => { e with now }) same
      rwa [none] at rest' ⊢
    · exact (step (e.heeds_of_not_waits fun ms same => waits ⟨ms, same⟩)).trans rest'

theorem settle (e : Engine) : e.Leads e.settle := of_reaches (.settle e) e.now_settle

theorem wait {e : Engine} {time : Nat} (notPast : e.now ≤ time)
    (within : ∀ p ∈ e.handler.pass, time ≤ p.wake) : e.Leads { e with now := time } := by
  have h : e.Leads (e.step (.call (.advance (time - e.now)))) := by
    refine step fun ms isWait p isPass => ?_
    cases isWait
    rw [Nat.add_sub_of_le notPast]
    exact within p isPass
  rwa [Engine.step, Nat.add_sub_of_le notPast] at h

theorem runTo (target : Nat) {now : Nat} (e : Engine) (present : e.now = now)
    (notPast : now ≤ target) (asleep : Asleep e) : e.Leads (e.runTo target now) := by
  fun_induction Engine.runTo target now e with
  | case1 now e t next ih =>
    have bounds := lt_and_le_of_earliest? next
    have within : ∀ p ∈ e.handler.pass, t ≤ p.wake := fun p isPass =>
      le_of_earliest? next (e.wake_mem_due isPass) (present ▸ asleep p isPass)
    exact (wait (by omega) within).trans
      ((settle _).trans (ih (now_settle _) bounds.2 (asleep_settle _)))
  | case2 now e none =>
    refine wait (by omega) fun p isPass => Nat.le_of_lt ?_
    exact lt_of_earliest?_eq_none none (e.wake_mem_due isPass) (present ▸ asleep p isPass)

theorem handle {e : Engine} (asleep : Asleep e) (request : Request) :
    e.Leads (e.handle request).1 := by
  have performed : e.Leads (e.perform request).1 := by
    by_cases waits : ∃ ms, request = .advance ms
    · obtain ⟨ms, rfl⟩ := waits
      exact runTo _ e rfl (Nat.le_add_right _ _) asleep
    · have noWait (ms : Nat) : request ≠ .advance ms := fun same => waits ⟨ms, same⟩
      have h : e.Leads (e.step (.call request)) :=
        step (e.heeds_of_not_waits (by simpa using noWait))
      rwa [Engine.step] at h
      exact noWait
  exact performed.trans (settle _)

theorem run {e : Engine} (asleep : Asleep e) (requests : List Request) :
    e.Leads (e.run requests) := by
  induction requests generalizing e with
  | nil => exact refl e
  | cons request rest ih => exact (handle asleep request).trans (ih (asleep_settle _))

theorem launch (r : Registry) (c : EngineConfig) (receiver : Receiver) (requests : List Request) :
    (start r c receiver).Leads ((launch r c receiver).run requests) :=
  (settle _).trans (run (asleep_settle _) requests)

end Leads

end Engine

end VehicleLink
