import Mathlib.Data.List.Chain
import VehicleLink.Health.Session

namespace VehicleLink.Watchdog

theorem fire_cases (w : Watchdog) (now : Nat) :
    (∃ timer, w.fire now = ({ w with timer }, []) ∧ (w.timer = none → timer = none))
      ∨ w.timer ≠ none ∧ w.health ≠ .down
        ∧ ∃ timer, w.fire now = ({ w with timer, health := .down }, [⟨w.kind, .down⟩]) := by
  rw [fire]
  split
  · next t ticking =>
    have present : w.timer ≠ none := by simp [ticking]
    split
    · rw [check]
      split
      · next stale =>
        have isUp : w.health ≠ .down := by
          intro down
          simp [isStale, down] at stale
        exact .inr ⟨present, isUp, _, rfl⟩
      · exact .inl ⟨_, rfl, fun retired => absurd retired present⟩
    · exact .inl ⟨_, rfl, id⟩
  · exact .inl ⟨_, rfl, id⟩

namespace Session

def reported (log : List Stamped) : Health := (log.head?.map (·.event.health)).getD .unknown

def saying (health : Health) (log : List Stamped) : List Stamped :=
  log.filter (·.event.health = health)

def Rises (s : Session) (action : Action) : Prop :=
  action = .update ∧ ∃ w ∈ s.watchdog, w.health ≠ .up

instance (s : Session) (action : Action) : Decidable (s.Rises action) :=
  inferInstanceAs (Decidable (_ ∧ _))

def Retired (s : Session) : Prop := ∀ w ∈ s.watchdog, w.timer = none

structure Faithful (own : UInt8) (s : Session) : Prop where
  kind : ∀ w ∈ s.watchdog, w.kind = own
  health : ∀ w ∈ s.watchdog, w.health = reported s.log
  told : ∀ r ∈ s.log, r.event.kind = own ∧ (r.event.health = .up ∨ r.event.health = .down)
  alternating : s.log.IsChain fun r r' => r.event.health ≠ r'.event.health

structure Quiet (s s' : Session) : Prop where
  log : s'.log = s.log
  kept : ∀ w' ∈ s'.watchdog, ∃ w ∈ s.watchdog,
    w'.kind = w.kind ∧ w'.health = w.health ∧ (w.timer = none → w'.timer = none)

variable {own : UInt8} {s s' : Session}

theorem Quiet.of_eq (watchdog : s'.watchdog = s.watchdog) (log : s'.log = s.log) : Quiet s s' :=
  ⟨log, fun w present => ⟨w, watchdog ▸ present, rfl, rfl, id⟩⟩

theorem quiet_stop (s : Session) : Quiet s { s with watchdog := s.watchdog.map stop } := by
  refine ⟨rfl, fun w' present => ?_⟩
  obtain ⟨w, before, rfl⟩ := Option.map_eq_some_iff.mp present
  exact ⟨w, before, rfl, rfl, fun _ => rfl⟩

theorem settle_of_fire {w : Watchdog} {fired : Watchdog × List HealthEvent}
    (present : s.watchdog = some w) (same : w.fire s.now = fired) :
    s.settle = ⟨s.now, some fired.1, stamp s.now fired.2 s.log⟩ := by
  rw [settle, present]
  dsimp only
  rw [same]

theorem runTo_of_next {time target : Nat} (next : earliest? s.due s.now target = some time) :
    s.runTo target = (settle { s with now := time }).runTo target := by
  rw [runTo]
  split
  · next time' same =>
    rw [next, Option.some.injEq] at same
    rw [same]
  · next none =>
    rw [next] at none
    cases none

theorem runTo_of_none {target : Nat} (none : earliest? s.due s.now target = none) :
    s.runTo target = { s with now := max s.now target } := by
  rw [runTo]
  split
  · next time same =>
    rw [none] at same
    cases same
  · rfl

theorem settle_cases (s : Session) :
    Quiet s s.settle
      ∨ ∃ w ∈ s.watchdog, w.timer ≠ none ∧ w.health ≠ .down
        ∧ ∃ timer, s.settle =
          { s with
            watchdog := some { w with timer, health := .down }
            log := ⟨s.now, ⟨w.kind, .down⟩⟩ :: s.log } := by
  rw [settle]
  split
  · next w present =>
    rcases w.fire_cases s.now with ⟨timer, fired, retired⟩ | ⟨ticking, notDown, timer, fired⟩
    · rw [fired]
      refine .inl ⟨rfl, ?_⟩
      rintro _ ⟨⟩
      exact ⟨w, present, rfl, rfl, retired⟩
    · rw [fired]
      exact .inr ⟨w, present, ticking, notDown, timer, rfl⟩
  · exact .inl (.of_eq rfl rfl)

theorem update_cases (s : Session) :
    ¬ s.Rises .update ∧ Quiet s (s.step .update)
      ∨ ∃ w ∈ s.watchdog, w.health ≠ .up
        ∧ s.step .update =
          { s with
            watchdog := some { w with lastSeen := s.now, health := .up }
            log := ⟨s.now, ⟨w.kind, .up⟩⟩ :: s.log } := by
  rw [step]
  split
  · next w present =>
    by_cases isUp : w.health = .up
    · refine .inl ⟨by simp [Rises, present, isUp], ?_⟩
      rw [update, if_pos isUp]
      refine ⟨rfl, ?_⟩
      rintro _ ⟨⟩
      exact ⟨w, present, rfl, isUp.symm, id⟩
    · rw [update, if_neg isUp]
      exact .inr ⟨w, present, isUp, rfl⟩
  · next absent => exact .inl ⟨by simp [Rises, absent], .of_eq rfl rfl⟩

theorem step_cases (s : Session) (action : Action) :
    (∃ ms, action = .advance ms)
      ∨ ¬ s.Rises action ∧ Quiet s (s.step action)
      ∨ action = .update ∧ ∃ w ∈ s.watchdog, w.health ≠ .up
        ∧ s.step action =
          { s with
            watchdog := some { w with lastSeen := s.now, health := .up }
            log := ⟨s.now, ⟨w.kind, .up⟩⟩ :: s.log } := by
  cases action with
  | advance ms => exact .inl ⟨ms, rfl⟩
  | update => exact .inr (s.update_cases.imp_right fun rises => ⟨rfl, rises⟩)
  | stop => exact .inr (.inl ⟨nofun, s.quiet_stop⟩)
  | cancel => exact .inr (.inl ⟨nofun, s.quiet_stop⟩)
  | drop => exact .inr (.inl ⟨nofun, rfl, nofun⟩)

theorem advance_induction {P : Session → Prop} (wait : ∀ s now, P s → P { s with now })
    (settle : ∀ s, P s → P s.settle) (initial : P s) (ms : Nat) : P (s.step (.advance ms)) := by
  rw [step]
  have settled : P s.settle := settle s initial
  generalize s.settle = s' at settled
  fun_induction runTo (s.now + ms) s' with
  | case1 s' t _ ih => exact ih (settle _ (wait s' t settled))
  | case2 s' => exact wait s' _ settled

namespace Faithful

theorem start (own : UInt8) (interval : Nat) : Faithful own (start own interval) :=
  ⟨by simp [Session.start, spawn], by simp [Session.start, spawn, reported], nofun, .nil⟩

theorem quiet (h : Faithful own s) (quiet : Quiet s s') : Faithful own s' where
  kind w' present := by
    obtain ⟨w, before, kind, -⟩ := quiet.kept w' present
    exact kind.trans (h.kind w before)
  health w' present := by
    obtain ⟨w, before, -, health, -⟩ := quiet.kept w' present
    rw [quiet.log, health, h.health w before]
  told := quiet.log ▸ h.told
  alternating := quiet.log ▸ h.alternating

theorem report (h : Faithful own s) {w : Watchdog} (w' : Watchdog) (present : w ∈ s.watchdog)
    (kind : w'.kind = w.kind) (spoken : w'.health = .up ∨ w'.health = .down)
    (changed : w.health ≠ w'.health) (now : Nat) :
    Faithful own ⟨now, some w', ⟨now, ⟨w.kind, w'.health⟩⟩ :: s.log⟩ where
  kind := by
    rintro _ ⟨⟩
    exact kind.trans (h.kind w present)
  health := by
    rintro _ ⟨⟩
    rfl
  told := List.forall_mem_cons.mpr ⟨⟨h.kind w present, spoken⟩, h.told⟩
  alternating := by
    refine List.isChain_cons.mpr ⟨fun r isLast same => changed ?_, h.alternating⟩
    rw [h.health w present, reported, isLast]
    exact same.symm

theorem settle (h : Faithful own s) : Faithful own s.settle := by
  rcases s.settle_cases with quiet | ⟨w, present, -, notDown, timer, same⟩
  · exact h.quiet quiet
  · rw [same]
    exact h.report { w with timer, health := .down } present rfl (.inr rfl) notDown s.now

theorem step (h : Faithful own s) (action : Action) : Faithful own (s.step action) := by
  rcases s.step_cases action with ⟨ms, rfl⟩ | ⟨-, quiet⟩ | ⟨-, w, present, notUp, same⟩
  · exact advance_induction (P := Faithful own) (fun _ _ h => h.quiet (.of_eq rfl rfl))
      (fun _ => settle) h ms
  · exact h.quiet quiet
  · rw [same]
    exact h.report { w with lastSeen := s.now, health := .up } present rfl (.inl rfl)
      notUp s.now

theorem run (h : Faithful own s) (actions : List Action) : Faithful own (s.run actions) := by
  induction actions generalizing s with
  | nil => exact h
  | cons action rest ih => exact ih (h.step action)

end Faithful

theorem saying_up_advance (s : Session) (ms : Nat) :
    saying .up (s.step (.advance ms)).log = saying .up s.log := by
  refine advance_induction (P := fun s' => saying .up s'.log = saying .up s.log)
    (fun _ _ same => same) (fun s' same => ?_) rfl ms
  rcases s'.settle_cases with quiet | ⟨w, -, -, -, timer, settled⟩
  · rw [quiet.log, same]
  · rw [settled]
    exact same

theorem saying_up_step (h : Faithful own s) (action : Action) :
    saying .up (s.step action).log =
      if s.Rises action then ⟨s.now, ⟨own, .up⟩⟩ :: saying .up s.log else saying .up s.log := by
  rcases s.step_cases action with ⟨ms, rfl⟩ | ⟨still, quiet⟩ | ⟨rfl, w, present, notUp, same⟩
  · rw [if_neg (by simp [Rises]), saying_up_advance]
  · rw [if_neg still, quiet.log]
  · rw [if_pos ⟨rfl, w, present, notUp⟩, same, ← h.kind w present]
    rfl

theorem up_of_update (s : Session) : ∀ w ∈ (s.step .update).watchdog, w.health = .up := by
  rw [step]
  split
  · rintro _ ⟨⟩
    rfl
  · next absent => simp [absent]

theorem isSome_step (s : Session) (action : Action) :
    (s.step action).watchdog.isSome = (s.watchdog.isSome && action ≠ .drop) := by
  cases action with
  | advance ms =>
    refine advance_induction (P := fun s' => s'.watchdog.isSome = (s.watchdog.isSome && _))
      (fun _ _ same => same) (fun s' same => ?_) (by simp) ms
    rw [← same, settle]
    split <;> simp [*]
  | update => cases present : s.watchdog <;> simp [step, present]
  | stop => simp [step]
  | cancel => simp [step]
  | drop => simp [step]

theorem isSome_run (s : Session) (actions : List Action) :
    (s.run actions).watchdog.isSome = (s.watchdog.isSome && .drop ∉ actions) := by
  induction actions generalizing s with
  | nil => simp [run]
  | cons action rest ih =>
    refine (ih (s.step action)).trans ?_
    rw [isSome_step]
    cases s.watchdog.isSome <;> simp [eq_comm]

namespace Retired

theorem stop (s : Session) : Retired { s with watchdog := s.watchdog.map stop } := by
  intro w present
  obtain ⟨_, -, rfl⟩ := Option.map_eq_some_iff.mp present
  rfl

theorem quiet (h : Retired s) (quiet : Quiet s s') : Retired s' := by
  intro w' present
  obtain ⟨w, before, -, -, retired⟩ := quiet.kept w' present
  exact retired (h w before)

theorem advance (h : Retired s) (ms : Nat) :
    Retired (s.step (.advance ms)) ∧ (s.step (.advance ms)).log = s.log := by
  refine advance_induction (P := fun s' => Retired s' ∧ s'.log = s.log)
    (fun _ _ h => h) (fun s' h => ?_) ⟨h, rfl⟩ ms
  rcases s'.settle_cases with quiet | ⟨w, present, ticking, -⟩
  · exact ⟨h.1.quiet quiet, quiet.log.trans h.2⟩
  · exact absurd (h.1 w present) ticking

theorem step (h : Retired s) (action : Action) :
    Retired (s.step action) ∧ saying .down (s.step action).log = saying .down s.log := by
  rcases s.step_cases action with ⟨ms, rfl⟩ | ⟨-, quiet⟩ | ⟨-, w, present, -, same⟩
  · obtain ⟨retired, log⟩ := h.advance ms
    exact ⟨retired, congrArg _ log⟩
  · exact ⟨h.quiet quiet, congrArg _ quiet.log⟩
  · rw [same]
    refine ⟨?_, rfl⟩
    rintro _ ⟨⟩
    exact h w present

theorem run (h : Retired s) (actions : List Action) :
    saying .down (s.run actions).log = saying .down s.log := by
  induction actions generalizing s with
  | nil => rfl
  | cons action rest ih =>
    obtain ⟨retired, same⟩ := h.step action
    exact (ih retired).trans same

end Retired

/-- Whatever happens to a watchdog, its events tell of its health: each is of another health than
the one before, the last is that of the watchdog itself, and it is up exactly by the updates that
find it anything else.  Once the watchdog is retired, by itself or with whoever started it, it is
never reported as down again, but an update still makes it up. -/
theorem faithful_run (kind : UInt8) (interval : Nat) (actions : List Action) :
    let s := (start kind interval).run actions
    Faithful kind s ∧ s.watchdog.isSome = decide (.drop ∉ actions)
      ∧ (∀ action, saying .up (s.step action).log =
        if s.Rises action then ⟨s.now, ⟨kind, .up⟩⟩ :: saying .up s.log else saying .up s.log)
      ∧ (∀ w ∈ (s.step .update).watchdog, w.health = .up)
      ∧ (∀ later, saying .down ((s.step .stop).run later).log = saying .down s.log)
      ∧ ∀ later, saying .down ((s.step .cancel).run later).log = saying .down s.log := by
  intro s
  have faithful : Faithful kind s := (Faithful.start kind interval).run actions
  exact ⟨faithful, isSome_run _ actions, saying_up_step faithful, s.up_of_update,
    (Retired.stop s).run, (Retired.stop s).run⟩

end Session

end VehicleLink.Watchdog
