import VehicleLink.Proofs.Health.Lifetime

namespace VehicleLink.Watchdog

variable {kind : UInt8} {interval last : Nat} {health : Health}

theorem fire_early {w : Watchdog} {t : Timer} {now : Nat} (ticking : w.timer = some t)
    (early : now < t.due) : w.fire now = (w, []) := by
  rw [fire, ticking]
  exact if_neg (Nat.not_le.mpr early)

theorem fire_due (period due : Nat) :
    (⟨kind, interval, last, health, some ⟨period, due⟩⟩ : Watchdog).fire due =
      if health ≠ .down ∧ last + interval < due then
        (⟨kind, interval, last, .down, some ⟨period, due + period⟩⟩, [⟨kind, .down⟩])
      else (⟨kind, interval, last, health, some ⟨period, due + period⟩⟩, []) := by
  have onTime : (⟨period, due⟩ : Timer).next due = ⟨period, due + period⟩ := by
    rw [Timer.next, if_neg (Nat.not_lt.mpr (Nat.le_add_right _ _))]
  have stale : interval < due - last ↔ last + interval < due := by omega
  simp [fire, check, isStale, onTime, stale]

namespace Session

theorem now_settle (s : Session) : s.settle.now = s.now := by
  rw [settle]
  split <;> rfl

theorem now_advance (s : Session) (ms : Nat) : (s.step (.advance ms)).now = s.now + ms := by
  rw [step]
  have notPast : s.settle.now ≤ s.now + ms := by
    rw [now_settle]
    exact Nat.le_add_right _ _
  generalize s.settle = s' at notPast
  fun_induction runTo (s.now + ms) s' with
  | case1 s' t next ih =>
    refine ih ?_
    rw [now_settle]
    exact (lt_and_le_of_earliest? next).2
  | case2 s' => exact Nat.max_eq_right notPast

theorem now_update (s : Session) : (s.step .update).now = s.now := by
  rw [step]
  split <;> rfl

def updateTimes (now : Nat) (earlier : List Nat) : List Action → List Nat
  | [] => earlier
  | .advance ms :: rest => updateTimes (now + ms) earlier rest
  | .update :: rest => updateTimes now (now :: earlier) rest
  | _ :: rest => updateTimes now earlier rest

/-- When something was seen last.  The creation at time zero counts as a sighting. -/
def latest (times : List Nat) : Nat := times.headD 0

def Regular (interval : Nat) (times : List Nat) : Prop :=
  (times ++ [0]).IsChain fun later earlier => later ≤ earlier + interval

instance (interval : Nat) (times : List Nat) : Decidable (Regular interval times) :=
  inferInstanceAs (Decidable (List.IsChain _ _))

theorem Regular.cons {now : Nat} {times : List Nat} (h : Regular interval (now :: times)) :
    now ≤ latest times + interval ∧ Regular interval times := by
  obtain ⟨first, others⟩ := List.isChain_cons.mp h
  refine ⟨first _ ?_, others⟩
  cases times <;> rfl

/-- A running watchdog whose next tick is due at `due`, after updates at `times`. -/
structure Timely (kind : UInt8) (interval : Nat) (times : List Nat) (due : Nat) (health : Health)
    (s : Session) : Prop where
  watchdog : s.watchdog =
    some ⟨kind, interval, latest times, health, some ⟨Timer.span interval, due⟩⟩
  ahead : s.now < due ∨ s.now = 0 ∧ due = 0
  near : due ≤ s.now + Timer.span interval
  past : latest times ≤ s.now
  /-- The tick before the next one has found nothing wrong. -/
  awaited : health ≠ .down → due ≤ latest times + interval + Timer.span interval
  told : ∀ r ∈ s.log, r.time ≤ s.now
  silent : health ≠ .down → ∀ r ∈ saying .down s.log, r.time ≤ latest times
  alarmed : health = .down → ∃ t earlier,
    saying .down s.log = ⟨t, ⟨kind, .down⟩⟩ :: earlier ∧ latest times < t
      ∧ ∀ r ∈ earlier, r.time ≤ latest times
  regular : Regular interval times → ∀ r ∈ saying .down s.log, latest times + interval < r.time

/-- Whatever is reported as down in between is so more than the interval and at most twice the
interval after the last sighting. -/
def Alarms (interval last : Nat) (s s' : Session) : Prop :=
  ∃ told, s'.log = told ++ s.log ∧ ∀ r ∈ told, r.event.health = .down →
    last + interval < r.time ∧ r.time ≤ last + 2 * interval

namespace Alarms

variable {s s' s'' : Session}

theorem refl (s : Session) : Alarms interval last s s := ⟨[], rfl, nofun⟩

theorem trans (h : Alarms interval last s s') (h' : Alarms interval last s' s'') :
    Alarms interval last s s'' := by
  obtain ⟨told, log, inTime⟩ := h
  obtain ⟨told', log', inTime'⟩ := h'
  refine ⟨told' ++ told, by rw [log', log, List.append_assoc], fun r isTold => ?_⟩
  exact (List.mem_append.mp isTold).elim (inTime' r) (inTime r)

theorem of_quiet (quiet : Quiet s s') : Alarms interval last s s' := ⟨[], quiet.log, nofun⟩

end Alarms

namespace Timely

variable {times : List Nat} {due : Nat} {s : Session}

theorem start (kind : UInt8) (positive : 0 < interval) :
    Timely kind interval [] 0 .unknown (start kind interval) where
  watchdog := by simp [Session.start, spawn, Timer.start?, Nat.ne_of_gt positive, latest]
  ahead := .inr ⟨rfl, rfl⟩
  near := Nat.zero_le _
  past := Nat.le_refl 0
  awaited _ := Nat.zero_le _
  told := nofun
  silent _ := nofun
  alarmed := nofun
  regular _ := nofun

theorem update (h : Timely kind interval times due health s) :
    Timely kind interval (s.now :: times) due .up (s.step .update) := by
  have step : s.step .update =
      { s with
        watchdog := some ⟨kind, interval, s.now, .up, some ⟨Timer.span interval, due⟩⟩
        log := stamp s.now (if health = .up then [] else [⟨kind, .up⟩]) s.log } := by
    rw [Session.step, h.watchdog]
    rfl
  have same : saying .down (s.step .update).log = saying .down s.log := by
    rw [step]
    by_cases isUp : health = .up <;> simp [stamp, saying, isUp]
  have now : (s.step .update).now = s.now := by rw [step]
  refine ⟨by rw [step]; rfl, now ▸ h.ahead, now ▸ h.near, Nat.le_of_eq now.symm, ?_, ?_, ?_,
    by simp, ?_⟩
  · intro _
    exact Nat.le_trans h.near (Nat.add_le_add_right (Nat.le_add_right _ _) _)
  · intro r isTold
    rw [now]
    rw [step, stamp, List.mem_append] at isTold
    rcases isTold with new | old
    · by_cases isUp : health = .up <;> simp [isUp] at new
      rw [new]
    · exact h.told r old
  · intro _ r isTold
    rw [same] at isTold
    exact h.told r (List.mem_of_mem_filter isTold)
  · -- Whatever was reported as down before came later than the interval allows.
    intro regular r isTold
    rw [same] at isTold
    obtain ⟨close, before⟩ := regular.cons
    have late := h.regular before r isTold
    have early := h.told r (List.mem_of_mem_filter isTold)
    omega

theorem tick (positive : 0 < interval) (h : Timely kind interval times due health s) :
    let s' := Session.settle { s with now := due }
    ∃ health', Timely kind interval times (due + Timer.span interval) health' s'
      ∧ s'.now < due + Timer.span interval ∧ Alarms interval (latest times) s s' := by
  intro s'
  have next : due < due + Timer.span interval := by
    simp only [Timer.span, Timer.horizon]
    omega
  have span_le : Timer.span interval ≤ interval := Nat.min_le_left _ _
  have reached : s.now ≤ due := by
    have := h.ahead
    omega
  have past : latest times ≤ due := Nat.le_trans h.past reached
  have told : ∀ r ∈ s.log, r.time ≤ due := fun r isTold => Nat.le_trans (h.told r isTold) reached
  by_cases stale : health ≠ .down ∧ latest times + interval < due
  · have settled : s' = _ := settle_of_fire h.watchdog ((fire_due _ _).trans (if_pos stale))
    rw [settled]
    have inTime : due ≤ latest times + interval + Timer.span interval := h.awaited stale.1
    refine ⟨.down, ⟨rfl, .inl next, Nat.le_refl _, past, nofun, ?_, nofun, fun _ => ?_, ?_⟩,
      next, [⟨due, ⟨kind, .down⟩⟩], rfl, ?_⟩
    · exact List.forall_mem_cons.mpr ⟨Nat.le_refl _, told⟩
    · exact ⟨due, _, rfl, by omega, h.silent stale.1⟩
    · intro regular
      exact List.forall_mem_cons.mpr ⟨stale.2, h.regular regular⟩
    · rintro r isTold -
      obtain rfl := List.mem_singleton.mp isTold
      exact ⟨stale.2, by dsimp only; omega⟩
  · have settled : s' = _ := settle_of_fire h.watchdog ((fire_due _ _).trans (if_neg stale))
    rw [settled]
    refine ⟨health, ⟨rfl, .inl next, Nat.le_refl _, past, ?_, told, h.silent, h.alarmed,
      h.regular⟩, next, [], rfl, nofun⟩
    intro notDown
    have fresh : due ≤ latest times + interval := Nat.not_lt.mp fun late => stale ⟨notDown, late⟩
    exact Nat.add_le_add_right fresh _

theorem wait (h : Timely kind interval times due health s) {now : Nat} (notPast : s.now ≤ now)
    (early : now < due) : Timely kind interval times due health { s with now } where
  watchdog := h.watchdog
  ahead := .inl early
  near := Nat.le_trans h.near (Nat.add_le_add_right notPast _)
  past := Nat.le_trans h.past notPast
  awaited := h.awaited
  told r isTold := Nat.le_trans (h.told r isTold) notPast
  silent := h.silent
  alarmed := h.alarmed
  regular := h.regular

theorem settle (positive : 0 < interval) (h : Timely kind interval times due health s) :
    ∃ due' health', Timely kind interval times due' health' s.settle ∧ s.settle.now < due'
      ∧ Alarms interval (latest times) s s.settle := by
  rcases h.ahead with early | ⟨now, isFirst⟩
  · have idle : s.settle = s := by
      rw [settle_of_fire h.watchdog (fire_early rfl early), ← h.watchdog]
      rfl
    rw [idle]
    exact ⟨due, health, h, early, .refl s⟩
  · obtain ⟨health', timely, next, alarms⟩ := h.tick positive
    have same : { s with now := due } = s := by rw [isFirst, ← now]
    rw [same] at timely next alarms
    exact ⟨_, health', timely, next, alarms⟩

theorem runTo (positive : 0 < interval) (target : Nat)
    (h : Timely kind interval times due health s) (early : s.now < due) :
    ∃ due' health', Timely kind interval times due' health' (s.runTo target)
      ∧ Alarms interval (latest times) s (s.runTo target) := by
  have isDue {s : Session} {due health} (h : Timely kind interval times due health s) :
      s.due = [due] := by
    rw [Session.due, h.watchdog]
    rfl
  fun_induction Session.runTo target s generalizing due health with
  | case1 s t next ih =>
    have same : t = due := by
      have := List.mem_of_mem_filter (List.min?_mem next)
      rwa [isDue h, List.mem_singleton] at this
    subst same
    obtain ⟨health', timely, later, alarms⟩ := h.tick positive
    obtain ⟨due', health'', timely', alarms'⟩ := ih timely later
    exact ⟨due', health'', timely', alarms.trans alarms'⟩
  | case2 s none =>
    have beyond : target < due := by
      rw [isDue h] at none
      by_contra reached
      simp [earliest?, early, Nat.not_lt.mp reached] at none
    exact ⟨due, health, h.wait (Nat.le_max_left _ _) (Nat.max_lt.mpr ⟨early, beyond⟩),
      .of_quiet (.of_eq rfl rfl)⟩

theorem advance (positive : 0 < interval) (h : Timely kind interval times due health s)
    (ms : Nat) :
    ∃ due' health', Timely kind interval times due' health' (s.step (.advance ms))
      ∧ Alarms interval (latest times) s (s.step (.advance ms)) := by
  obtain ⟨due', health', timely, next, alarms⟩ := h.settle positive
  obtain ⟨due'', health'', timely', alarms'⟩ := timely.runTo positive (s.now + ms) next
  exact ⟨due'', health'', timely', alarms.trans alarms'⟩

theorem run (positive : 0 < interval) {actions : List Action}
    (goesOn : ∀ action ∈ actions, action ∉ [.stop, .cancel, .drop])
    (h : Timely kind interval times due health s) :
    ∃ due' health', Timely kind interval (updateTimes s.now times actions) due' health'
      (s.run actions) := by
  induction actions generalizing s times due health with
  | nil => exact ⟨due, health, h⟩
  | cons action rest ih =>
    obtain ⟨first, later⟩ := List.forall_mem_cons.mp goesOn
    cases action with
    | advance ms =>
      obtain ⟨due', health', timely, -⟩ := h.advance positive ms
      have run := ih later timely
      rwa [now_advance] at run
    | update =>
      have run := ih later h.update
      rwa [now_update] at run
    | stop | cancel | drop => simp at first

end Timely

/-- For as long as a watchdog goes on, what it reports as down it reports more than the interval
and at most twice the interval after the last sighting; not at all, for as long as no sighting is
more than the interval behind the one before; and exactly once, if after the last sighting twice
the interval has gone by. -/
theorem alarms_of_goesOn (kind : UInt8) (positive : 0 < interval) {actions : List Action}
    (goesOn : ∀ action ∈ actions, action ∉ [.stop, .cancel, .drop]) :
    let s := (start kind interval).run actions
    let times := updateTimes 0 [] actions
    (∀ action, Alarms interval (latest times) s (s.step action))
      ∧ (Regular interval times → ∀ r ∈ saying .down s.log, latest times + interval < r.time)
      ∧ (latest times + 2 * interval ≤ s.now →
        ∃ t, (saying .down s.log).filter (latest times < ·.time) = [⟨t, ⟨kind, .down⟩⟩]) := by
  intro s times
  obtain ⟨due, health, timely⟩ : ∃ due health, Timely kind interval times due health s :=
    (Timely.start kind positive).run positive goesOn
  refine ⟨fun action => ?_, timely.regular, fun long => ?_⟩
  · cases action with
    | advance ms =>
      obtain ⟨-, -, -, alarms⟩ := timely.advance positive ms
      exact alarms
    | update =>
      rcases s.update_cases with ⟨-, quiet⟩ | ⟨w, -, -, same⟩
      · exact .of_quiet quiet
      · rw [same]
        exact ⟨[_], rfl, by simp⟩
    | stop | cancel => exact .of_quiet s.quiet_stop
    | drop => exact .refl s
  · have isDown : health = .down := by
      by_contra notDown
      have soon : due ≤ latest times + interval + Timer.span interval := timely.awaited notDown
      have ahead : s.now < due ∨ s.now = 0 ∧ due = 0 := timely.ahead
      have : Timer.span interval ≤ interval := Nat.min_le_left _ _
      omega
    obtain ⟨t, earlier, same, late, early⟩ := timely.alarmed isDown
    refine ⟨t, ?_⟩
    rw [same, List.filter_cons_of_pos (by simpa using late), List.filter_eq_nil_iff.mpr]
    simpa using early

theorem alarms_of_pulse :
    let actions := [.advance 500, .update, .advance 1000, .update, .advance 3000]
    let s := (start 30 1000).run actions
    (0 < 1000 ∧ ∀ action ∈ actions, action ∉ [.stop, .cancel, .drop])
      ∧ updateTimes 0 [] actions = [1500, 500] ∧ Regular 1000 [1500, 500]
      ∧ (∀ r ∈ saying .down s.log, 2500 < r.time)
      ∧ ∃ t, (saying .down s.log).filter (1500 < ·.time) = [⟨t, ⟨30, .down⟩⟩] := by
  intro actions s
  obtain ⟨-, regular, once⟩ := @alarms_of_goesOn 1000 30 (by decide) actions (by decide)
  exact ⟨by decide, rfl, by decide, regular (by decide), once (by decide +kernel)⟩

end Session

end VehicleLink.Watchdog
