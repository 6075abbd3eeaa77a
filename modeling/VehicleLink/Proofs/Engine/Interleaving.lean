import VehicleLink.Proofs.Engine.Handler

/-! The activities of an engine in any order.  Readers, watchdogs, the health task, the state
handler, the override and the errands take turns, and each of them is undisturbed until it
sleeps.  Every run of requests is one of these orders. -/

namespace VehicleLink

def Watchdog.fireIf (w : Watchdog) (kinds : List UInt8) (now : Nat) :
    Watchdog × List HealthEvent :=
  if w.kind ∈ kinds then w.fire now else (w, [])

def Monitor.fireOnly (m : Monitor) (kinds : List UInt8) (now : Nat) :
    Monitor × List HealthEvent :=
  ({ m with watchdogs := m.watchdogs.mapValues fun w => (w.fireIf kinds now).1 },
    m.watchdogs.values.flatMap fun w => (w.fireIf kinds now).2)

theorem Monitor.fireOnly_all (m : Monitor) (now : Nat) :
    m.fireOnly (m.watchdogs.values.map Watchdog.kind) now = m.fire now := by
  have fires {w : Watchdog} (isMember : w ∈ m.watchdogs.values) :
      w.fireIf (m.watchdogs.values.map Watchdog.kind) now = w.fire now :=
    if_pos (List.mem_map_of_mem isMember)
  rw [fireOnly, fire, Prod.mk.injEq, Assoc.mapValues, Assoc.mapValues]
  constructor
  · congr 2
    exact List.map_congr_left fun e isMember => by rw [fires (List.mem_map_of_mem isMember)]
  · rw [List.flatMap_def, List.flatMap_def]
    congr 1
    exact List.map_congr_left fun w isMember => by rw [fires isMember]

namespace Engine

def runErrands (e : Engine) (ids : List Nat) : Engine :=
  let (due, asleep) := e.jobs.partition fun j => j.wake ≤ e.now ∧ j.id ∈ ids
  due.foldl resumeJob { e with jobs := asleep }

def pursued (e : Engine) (ids : List Nat) : List Attempt :=
  let (due, asleep) := e.jobs.partition fun j => j.wake ≤ e.now ∧ j.id ∈ ids
  { e with jobs := asleep }.resumptions due

theorem errs_runErrands (e : Engine) (ids : List Nat) :
    Errs (e.pursued ids) e (e.runErrands ids) := by
  let parts := e.jobs.partition fun j => j.wake ≤ e.now ∧ j.id ∈ ids
  have asleep : Errs [] e { e with jobs := parts.2 } := ⟨⟨_, _, _, rfl⟩, .rest rfl⟩
  exact asleep.trans (.resumeJobs parts.1 _)

theorem runErrands_all (e : Engine) : e.runErrands (e.jobs.map Job.id) = e.runJobs := by
  have same : (e.jobs.partition fun j => j.wake ≤ e.now ∧ j.id ∈ e.jobs.map Job.id) =
      e.jobs.partition (·.wake ≤ e.now) := by
    rw [List.partition_eq_filter_filter, List.partition_eq_filter_filter]
    congr 1
    all_goals
      refine List.filter_congr fun j isMember => ?_
      have named : j.id ∈ e.jobs.map Job.id := List.mem_map_of_mem isMember
      simp only [Function.comp, named, and_true]
  rw [runErrands, runJobs, same]

section Clock

variable (e : Engine)

theorem now_resumePass : e.resumePass.now = e.now := by
  obtain ⟨_, _, same, -⟩ := e.resumePass_eq
  rw [same]

theorem now_runTicks (fuel : Nat) : (e.runTicks fuel).now = e.now := by
  induction fuel generalizing e with
  | zero => rfl
  | succ fuel ih =>
    rw [runTicks.eq_def]
    dsimp only
    split
    · next t idle _ =>
      split
      · obtain ⟨_, _, _, _, _, same⟩ := (ticks_tickHandler e t idle).rest
        rw [ih, same]
      · rfl
    · rfl

theorem now_runOverride : e.runOverride.now = e.now := by
  obtain ⟨_, _, _, same, -⟩ := e.runOverride_eq
  rw [same]

theorem now_runJobs : e.runJobs.now = e.now := by
  obtain ⟨_, _, _, same⟩ := (e.errs_runErrands (e.jobs.map Job.id)).rest
  rw [← runErrands_all, same]

theorem now_applyNext : e.applyNext.now = e.now := by
  obtain ⟨_, _, _, same⟩ := e.applyNext_eq
  rw [same]

theorem now_applyEvents : e.applyEvents.now = e.now := by
  rw [applyEvents]
  split
  · rfl
  · next running =>
    clear running
    generalize e.events = events
    induction events generalizing e with
    | nil => rfl
    | cons _ rest ih => exact (ih _).trans e.now_applyNext

theorem now_settle : e.settle.now = e.now := by
  rw [settle, now_applyEvents, now_runJobs, now_runOverride, runHandler, now_runTicks,
    now_resumePass]
  rfl

end Clock

inductive Action
  | call (request : Request)
  | receive (item : Item)
  /-- The watchdogs of some kinds look at the clock. -/
  | watch (kinds : List UInt8)
  /-- The oldest health event is applied. -/
  | deliver
  | tick
  /-- A pass of the handler goes on. -/
  | resume
  /-- The timer of the override is looked at. -/
  | resend
  | errands (ids : List Nat)

/-- Asking for time to pass moves the clock and nothing else: what is due then happens by
actions of its own, as soon or as late as they come. -/
def step (e : Engine) : Action → Engine
  | .call (.advance ms) => { e with now := e.now + ms }
  | .call request => (e.perform request).1
  | .receive item => e.receive item
  | .watch kinds =>
    let (monitor, events) := e.monitor.fireOnly kinds e.now
    { e with monitor, events := e.events ++ events }
  | .deliver => e.applyNext
  | .tick => e.runTicks 1
  | .resume => e.resumePass
  | .resend => e.runOverride
  | .errands ids => e.runErrands ids

def steps (e : Engine) (actions : List Action) : Engine := actions.foldl step e

theorem steps_append (e : Engine) (actions actions' : List Action) :
    e.steps (actions ++ actions') = (e.steps actions).steps actions' :=
  List.foldl_append

theorem steps_induction {P : Engine → Prop} (keeps : ∀ e action, P e → P (e.step action))
    {e : Engine} (initial : P e) (actions : List Action) : P (e.steps actions) := by
  induction actions generalizing e with
  | nil => exact initial
  | cons action rest ih => exact ih (keeps e action initial)

def Reaches (e e' : Engine) : Prop := ∃ actions, e.steps actions = e'

namespace Reaches

variable {e e' e'' : Engine}

theorem refl (e : Engine) : e.Reaches e := ⟨[], rfl⟩

theorem trans (h : e.Reaches e') (h' : e'.Reaches e'') : e.Reaches e'' := by
  obtain ⟨actions, rfl⟩ := h
  obtain ⟨actions', rfl⟩ := h'
  exact ⟨actions ++ actions', steps_append e actions actions'⟩

theorem step (e : Engine) (action : Action) : e.Reaches (e.step action) := ⟨[action], rfl⟩

theorem checkHealth (e : Engine) : e.Reaches e.checkHealth := by
  have h := step e (.watch (e.monitor.watchdogs.values.map Watchdog.kind))
  rwa [Engine.step, Monitor.fireOnly_all] at h

theorem runTicks (fuel : Nat) (e : Engine) : e.Reaches (e.runTicks fuel) := by
  induction fuel generalizing e with
  | zero => exact refl e
  | succ fuel ih =>
    have first := step e .tick
    rw [Engine.step, Engine.runTicks] at first
    rw [Engine.runTicks]
    split at first
    · split at first
      · next due =>
        rw [if_pos due]
        exact first.trans (ih _)
      · next notDue =>
        rw [if_neg notDue]
        exact refl e
    · exact refl e

theorem runHandler (e : Engine) : e.Reaches e.runHandler :=
  (step e .resume).trans (runTicks _ _)

theorem runJobs (e : Engine) : e.Reaches e.runJobs := by
  have h := step e (.errands (e.jobs.map Job.id))
  rwa [Engine.step, runErrands_all] at h

theorem deliverAll (events : List HealthEvent) (e : Engine) :
    e.Reaches (events.foldl (fun e _ => e.applyNext) e) := by
  induction events generalizing e with
  | nil => exact refl e
  | cons _ rest ih => exact (step e .deliver).trans (ih _)

theorem applyEvents (e : Engine) : e.Reaches e.applyEvents := by
  rw [Engine.applyEvents]
  split
  · exact refl e
  · exact deliverAll e.events e

theorem settle (e : Engine) : e.Reaches e.settle :=
  (checkHealth e).trans <| (runHandler _).trans <| (step _ .resend).trans <|
    (runJobs _).trans (applyEvents _)

theorem wait (e : Engine) {time : Nat} (notPast : e.now ≤ time) :
    e.Reaches { e with now := time } := by
  have h := step e (.call (.advance (time - e.now)))
  rwa [Engine.step, Nat.add_sub_of_le notPast] at h

theorem runTo (target : Nat) {now : Nat} (e : Engine) (notAhead : e.now ≤ now)
    (notPast : now ≤ target) : e.Reaches (e.runTo target now) := by
  fun_induction Engine.runTo target now e with
  | case1 now e t next ih =>
    have bounds := lt_and_le_of_earliest? next
    refine (wait e (by omega)).trans ((settle _).trans (ih ?_ bounds.2))
    -- Settling takes no time.
    exact Nat.le_of_eq (now_settle _)
  | case2 now e none => exact wait e (by omega)

theorem handle (e : Engine) (request : Request) : e.Reaches (e.handle request).1 := by
  have performed : e.Reaches (e.perform request).1 := by
    by_cases waits : ∃ ms, request = .advance ms
    · obtain ⟨ms, rfl⟩ := waits
      exact runTo _ e (Nat.le_refl _) (Nat.le_add_right _ _)
    · have h := step e (.call request)
      rwa [Engine.step] at h
      exact fun ms same => waits ⟨ms, same⟩
  exact performed.trans (settle _)

theorem run (requests : List Request) (e : Engine) : e.Reaches (e.run requests) := by
  induction requests generalizing e with
  | nil => exact refl e
  | cons request rest ih => exact (handle e request).trans (ih _)

/-- Whatever is requested, what an engine does is an order of its activities. -/
theorem launch (r : Registry) (c : EngineConfig) (receiver : Receiver) (requests : List Request) :
    (start r c receiver).Reaches ((launch r c receiver).run requests) :=
  (settle _).trans (run requests _)

end Reaches

end Engine

end VehicleLink
