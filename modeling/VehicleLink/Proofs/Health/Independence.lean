import VehicleLink.Proofs.Health.Lifetime
import VehicleLink.Proofs.Health.Tidings

/-! Watchdogs of different kinds know nothing of each other.  What a monitor does for one kind is
what a watchdog of that kind does by itself. -/

namespace VehicleLink

section Clock

variable {times : List Nat} {now target time : Nat}

theorem earliest?_eq_some_iff (ahead : ∀ due ∈ times, now < due) :
    earliest? times now target = some time ↔
      time ∈ times ∧ time ≤ target ∧ ∀ due ∈ times, time ≤ due := by
  simp only [earliest?, List.min?_eq_some_iff, List.mem_filter, Bool.and_eq_true,
    decide_eq_true_eq]
  constructor
  · rintro ⟨⟨isDue, -, within⟩, least⟩
    refine ⟨isDue, within, fun due isDue' => ?_⟩
    by_cases within' : due ≤ target
    · exact least due ⟨isDue', ahead due isDue', within'⟩
    · omega
  · rintro ⟨isDue, within, least⟩
    exact ⟨⟨isDue, ahead time isDue, within⟩, fun due h => least due h.1⟩

theorem earliest?_eq_none_iff (ahead : ∀ due ∈ times, now < due) :
    earliest? times now target = none ↔ ∀ due ∈ times, target < due := by
  rw [earliest?, List.min?_eq_none_iff, List.filter_eq_nil_iff]
  refine forall_congr' fun due => imp_congr_right fun isDue => ?_
  simp [ahead due isDue]

end Clock

namespace Watchdog

/-- No tick is overdue, and the next ones come one by one. -/
def Punctual (w : Watchdog) (now : Nat) : Prop := ∀ t ∈ w.timer, 0 < t.period ∧ now ≤ t.due

theorem punctual_spawn (kind : UInt8) (interval now : Nat) :
    (spawn kind interval now).Punctual now := by
  intro t ticking
  simp only [spawn, Timer.start?, Option.mem_def] at ticking
  split at ticking
  · cases ticking
  · cases ticking
    refine ⟨?_, Nat.le_refl now⟩
    simp only [Timer.span, Timer.horizon]
    omega

theorem Punctual.fire {w : Watchdog} {now : Nat} (h : w.Punctual now) :
    ∀ t ∈ (w.fire now).1.timer, 0 < t.period ∧ now < t.due := by
  rw [Watchdog.fire]
  split
  · next t ticking =>
    obtain ⟨positive, notPast⟩ := h t ticking
    split
    · have timer : ∀ due, ((check { w with timer := some (t.next now) } due).1).timer =
          some (t.next now) := by
        intro due
        rw [check]
        split <;> rfl
      rw [timer]
      rintro _ ⟨⟩
      refine ⟨positive, ?_⟩
      simp only [Timer.next]
      split <;> omega
    · next early =>
      intro t' ticking'
      obtain rfl : t = t' := Option.some.inj (ticking.symm.trans ticking')
      exact ⟨positive, Nat.not_le.mp early⟩
  · next retired =>
    intro t ticking
    rw [retired] at ticking
    cases ticking

namespace Session

variable {s : Session}

theorem settle_of_early (early : ∀ due ∈ s.due, s.now < due) : s.settle = s := by
  cases present : s.watchdog with
  | none =>
    rw [settle, present]
  | some w =>
    have idle : w.fire s.now = (w, []) := by
      rw [fire]
      split
      · next t ticking =>
        refine if_neg (Nat.not_le.mpr (early t.due ?_))
        simp [due, present, due?, ticking]
      · rfl
    rw [settle_of_fire present idle, ← present]
    rfl

theorem runTo_wait {time target : Nat} (early : ∀ due ∈ s.due, time < due)
    (notPast : s.now ≤ time) (within : time ≤ target) :
    runTo target { s with now := time } = runTo target s := by
  have same : earliest? s.due time target = earliest? s.due s.now target := by
    rw [earliest?, earliest?]
    congr 1
    refine List.filter_congr fun due isDue => ?_
    simp [early due isDue, Nat.lt_of_le_of_lt notPast (early due isDue)]
  cases next : earliest? s.due s.now target with
  | none =>
    rw [runTo_of_none next, runTo_of_none (same.trans next), Nat.max_eq_right within,
      Nat.max_eq_right (Nat.le_trans notPast within)]
  | some due => rw [runTo_of_next next, runTo_of_next (same.trans next)]

end Session

end Watchdog

namespace Monitor

section Turns

variable {turn : Watchdog → Watchdog × List HealthEvent}
  (tells : ∀ w : Watchdog, w.Tells (turn w).1 (turn w).2) {entries : List (UInt8 × Watchdog)}
  (own : ∀ e ∈ entries, e.2.kind = e.1)

include tells own

theorem filter_turns (distinct : (entries.map Prod.fst).Nodup) (kind : UInt8) :
    ((entries.map Prod.snd).flatMap fun w => (turn w).2).filter (·.kind = kind) =
      ((Assoc.find kind entries).map fun w => (turn w).2).getD [] := by
  induction entries with
  | nil => rfl
  | cons entry rest ih =>
    obtain ⟨key, w⟩ := entry
    have isOwn : ∀ e ∈ (turn w).2, e.kind = key := fun e isEvent =>
      ((tells w).own e isEvent).trans (own _ List.mem_cons_self)
    have ownRest := fun e later => own e (List.mem_cons_of_mem _ later)
    obtain ⟨fresh, distinctRest⟩ := List.nodup_cons.mp distinct
    simp only [List.map_cons, List.flatMap_cons, List.filter_append, Assoc.find]
    split
    · next same =>
      subst same
      have silent := silent_turns tells ownRest fresh
      rw [List.filter_eq_self.mpr (by simpa using isOwn),
        List.filter_eq_nil_iff.mpr (by simpa using silent), List.append_nil]
      rfl
    · next other =>
      rw [List.filter_eq_nil_iff.mpr fun e isEvent => by simp [isOwn e isEvent, other],
        List.nil_append, ih ownRest distinctRest]

end Turns

namespace Session

def view (kind : UInt8) (s : Session) : Watchdog.Session :=
  ⟨s.now, s.monitor.watchdogs.get? kind, s.log.filter (·.event.kind = kind)⟩

theorem filter_stamp (kind : UInt8) (now : Nat) (events : List HealthEvent) (log : List Stamped) :
    (stamp now events log).filter (·.event.kind = kind) =
      stamp now (events.filter (·.kind = kind)) (log.filter (·.event.kind = kind)) := by
  rw [stamp, stamp, List.filter_append, List.filter_reverse, List.filter_map]
  rfl

structure Sound (s : Session) : Prop where
  keyed : s.monitor.Keyed
  punctual : ∀ e ∈ s.monitor.watchdogs.entries, e.2.Punctual s.now

theorem sound_start : start.Sound := ⟨keyed_empty, nofun⟩

variable {s s' : Session} {kind : UInt8}

theorem view_settle (keyed : s.monitor.Keyed) (kind : UInt8) :
    s.settle.view kind = (s.view kind).settle := by
  have watchdog := s.monitor.watchdogs.get?_mapValues (fun w => (w.fire s.now).1) kind
  have log := filter_turns (fun w => Watchdog.Tells.fire w s.now) keyed.own keyed.distinct kind
  change _ = ((s.monitor.watchdogs.get? kind).map _).getD [] at log
  cases found : s.monitor.watchdogs.get? kind with
  | none =>
    rw [found] at watchdog log
    rw [Watchdog.Session.settle, view, view, settle, fire, filter_stamp]
    dsimp only [Assoc.values]
    rw [watchdog, log, found]
    rfl
  | some w =>
    rw [found] at watchdog log
    rw [Watchdog.Session.settle_of_fire (w := w) found rfl, view, settle, fire, filter_stamp]
    dsimp only [Assoc.values]
    rw [watchdog, log]
    rfl

theorem mem_due_of_mem_entries {e : UInt8 × Watchdog} {t : Timer}
    (isEntry : e ∈ s.monitor.watchdogs.entries) (ticking : e.2.timer = some t) :
    t.due ∈ s.monitor.due := by
  refine List.mem_filterMap.mpr ⟨e.2, List.mem_map_of_mem isEntry, ?_⟩
  rw [Watchdog.due?, ticking, Option.map_some]

theorem mem_due_of_view {due : Nat} (h : due ∈ (s.view kind).due) : due ∈ s.monitor.due := by
  obtain ⟨w, found, isNext⟩ := Option.bind_eq_some_iff.mp (Option.mem_toList.mp h)
  obtain ⟨t, ticking, rfl⟩ := Option.map_eq_some_iff.mp isNext
  exact mem_due_of_mem_entries (Assoc.mem_entries_of_get? found) ticking

theorem Sound.settle (h : s.Sound) :
    s.settle.Sound ∧ ∀ due ∈ s.settle.monitor.due, s.now < due := by
  have next : ∀ e ∈ s.settle.monitor.watchdogs.entries, ∀ t ∈ e.2.timer,
      0 < t.period ∧ s.now < t.due := by
    intro e isEntry
    obtain ⟨old, isOld, rfl⟩ := List.mem_map.mp isEntry
    exact (h.punctual old isOld).fire
  refine ⟨⟨?_, fun e isEntry t ticking => ?_⟩, fun due isDue => ?_⟩
  · exact (Tells.mapValues (fun w => .fire w s.now) s.monitor s.monitor.cancelled).keyed h.keyed
  · obtain ⟨positive, later⟩ := next e isEntry t ticking
    exact ⟨positive, Nat.le_of_lt later⟩
  · obtain ⟨w, isMember, isNext⟩ := List.mem_filterMap.mp isDue
    obtain ⟨e, isEntry, rfl⟩ := List.mem_map.mp isMember
    obtain ⟨t, ticking, rfl⟩ := Option.map_eq_some_iff.mp isNext
    exact (next e isEntry t ticking).2

theorem Sound.wait (h : s.Sound) {time : Nat} (reached : ∀ due ∈ s.monitor.due, time ≤ due) :
    Sound { s with now := time } where
  keyed := h.keyed
  punctual e isEntry t ticking :=
    ⟨(h.punctual e isEntry t ticking).1, reached t.due (mem_due_of_mem_entries isEntry ticking)⟩

theorem view_runTo (target : Nat) (h : s.Sound) (ahead : ∀ due ∈ s.monitor.due, s.now < due)
    (kind : UInt8) :
    (s.runTo target).Sound ∧ (s.runTo target).view kind = (s.view kind).runTo target := by
  fun_induction Session.runTo target s with
  | case1 s time next ih =>
    obtain ⟨-, within, least⟩ := (earliest?_eq_some_iff ahead).mp next
    have notPast : s.now ≤ time := Nat.le_of_lt (lt_and_le_of_earliest? next).1
    obtain ⟨sound, later⟩ := (h.wait least).settle
    obtain ⟨sound', same⟩ := ih sound later
    rw [view_settle (s := { s with now := time }) h.keyed] at same
    refine ⟨sound', same.trans ?_⟩
    by_cases isDue : time ∈ (s.view kind).due
    · have next' : earliest? (s.view kind).due (s.view kind).now target = some time :=
        (earliest?_eq_some_iff fun due isDue' => ahead due (mem_due_of_view isDue')).mpr
          ⟨isDue, within, fun due isDue' => least due (mem_due_of_view isDue')⟩
      exact (Watchdog.Session.runTo_of_next next').symm
    · have early : ∀ due ∈ (s.view kind).due, time < due := fun due isDue' =>
        Nat.lt_of_le_of_ne (least due (mem_due_of_view isDue')) fun same => isDue (same ▸ isDue')
      rw [Watchdog.Session.settle_of_early early]
      exact Watchdog.Session.runTo_wait early notPast within
  | case2 s none =>
    have beyond := (earliest?_eq_none_iff ahead).mp none
    have none' : earliest? (s.view kind).due (s.view kind).now target = .none :=
      (earliest?_eq_none_iff fun due isDue => ahead due (mem_due_of_view isDue)).mpr
        fun due isDue => beyond due (mem_due_of_view isDue)
    rw [Watchdog.Session.runTo_of_none none']
    refine ⟨h.wait fun due isDue => Nat.max_le.mpr ⟨?_, ?_⟩, rfl⟩
    · exact Nat.le_of_lt (ahead due isDue)
    · exact Nat.le_of_lt (beyond due isDue)

def part (kind : UInt8) : Action → Option Watchdog.Action
  | .track _ _ => none
  | .update k => if k = kind then some .update else none
  | .advance ms => some (.advance ms)
  | .stopAll => some .stop
  | .cancel => some .cancel

theorem view_update (keyed : s.monitor.Keyed) (kind : UInt8) :
    (s.step (.update kind)).view kind = (s.view kind).step .update := by
  cases found : s.monitor.watchdogs.get? kind with
  | none => simp [step, Monitor.update, Watchdog.Session.step, view, found, stamp]
  | some w =>
    have own : w.kind = kind := keyed.own _ (Assoc.mem_entries_of_get? found)
    have told : (w.update s.now).2.filter (·.kind = kind) = (w.update s.now).2 :=
      List.filter_eq_self.mpr fun e isEvent =>
        decide_eq_true (((Watchdog.Tells.update w s.now).own e isEvent).trans own)
    simp only [step, Monitor.update, Watchdog.Session.step, view, found, filter_stamp, told,
      Assoc.get?_insert_self]

theorem view_update_other (keyed : s.monitor.Keyed) {other : UInt8} (differs : other ≠ kind) :
    (s.step (.update other)).view kind = s.view kind := by
  cases found : s.monitor.watchdogs.get? other with
  | none => simp [step, Monitor.update, view, found, stamp]
  | some w =>
    have own : w.kind = other := keyed.own _ (Assoc.mem_entries_of_get? found)
    have silent : (w.update s.now).2.filter (·.kind = kind) = [] :=
      List.filter_eq_nil_iff.mpr fun e isEvent told =>
        differs ((((Watchdog.Tells.update w s.now).own e isEvent).trans own).symm.trans
          (of_decide_eq_true told))
    simp only [step, Monitor.update, view, found, filter_stamp, silent, Assoc.get?_insert,
      if_neg differs]
    rfl

theorem view_track (s : Session) (kind : UInt8) (interval : Nat) :
    (s.step (.track kind interval)).view kind =
      { s.view kind with
        watchdog := some <|
          if s.monitor.cancelled then (Watchdog.spawn kind interval s.now).stop
          else .spawn kind interval s.now } := by
  simp only [step, track, view, Assoc.get?_insert_self]

theorem view_track_other {other : UInt8} (differs : other ≠ kind) (s : Session)
    (interval : Nat) : (s.step (.track other interval)).view kind = s.view kind := by
  simp only [step, track, view, Assoc.get?_insert, if_neg differs]

theorem view_step (h : s.Sound) {action : Action} (untracked : ∀ i, action ≠ .track kind i) :
    (s.step action).view kind =
      ((part kind action).map (s.view kind).step).getD (s.view kind) := by
  cases action with
  | track k interval =>
    exact view_track_other (fun same => untracked interval (congrArg (Action.track · _) same))
      s interval
  | update k =>
    rw [part]
    split
    · next same =>
      subst same
      exact view_update h.keyed k
    · next differs => exact view_update_other h.keyed differs
  | advance ms =>
    obtain ⟨sound, later⟩ := h.settle
    obtain ⟨-, same⟩ := view_runTo (s.now + ms) sound later kind
    rw [view_settle h.keyed] at same
    exact same
  | stopAll | cancel =>
    simp only [step, view, cancel, stopAll, Assoc.get?_mapValues]
    rfl

theorem Sound.insert (h : s.Sound) {w : Watchdog} (own : w.kind = kind)
    (punctual : w.Punctual s.now) (log : List Stamped) :
    Sound ⟨s.now, { s.monitor with watchdogs := s.monitor.watchdogs.insert kind w }, log⟩ where
  keyed := h.keyed.insert own
  punctual e isEntry :=
    (Assoc.eq_or_mem_of_mem_insert isEntry).elim (fun same => same ▸ punctual) (h.punctual e)

theorem Sound.step (h : s.Sound) (action : Action) : (s.step action).Sound := by
  have stopped (cancelled : Bool) :
      Sound { s with monitor := ⟨s.monitor.watchdogs.mapValues Watchdog.stop, cancelled⟩ } := by
    have keyed := (Tells.cancel s.monitor).keyed h.keyed
    refine ⟨⟨keyed.own, keyed.distinct⟩, fun e isEntry => ?_⟩
    obtain ⟨old, -, rfl⟩ := List.mem_map.mp isEntry
    exact nofun
  cases action with
  | track k interval =>
    refine h.insert ?_ ?_ s.log
    · split <;> rfl
    · split
      · exact nofun
      · exact Watchdog.punctual_spawn k interval s.now
  | update k =>
    cases found : s.monitor.watchdogs.get? k with
    | none =>
      simp only [Session.step, Monitor.update, found]
      exact h
    | some w =>
      have isEntry := Assoc.mem_entries_of_get? found
      have sound := h.insert (w := (w.update s.now).1) (h.keyed.own _ isEntry)
        (h.punctual _ isEntry)
      simp only [Session.step, Monitor.update, found]
      exact sound _
  | advance ms =>
    obtain ⟨sound, later⟩ := h.settle
    exact (view_runTo (s.now + ms) sound later 0).1
  | stopAll => exact stopped _
  | cancel => exact stopped _

theorem view_run (h : s.Sound) {actions : List Action}
    (untracked : ∀ i, .track kind i ∉ actions) :
    (s.run actions).view kind = (s.view kind).run (actions.filterMap (part kind)) := by
  induction actions generalizing s with
  | nil => rfl
  | cons action rest ih =>
    have first : ∀ i, action ≠ .track kind i := fun i same =>
      untracked i (same ▸ List.mem_cons_self)
    have later : ∀ i, .track kind i ∉ rest := fun i isLater =>
      untracked i (List.mem_cons_of_mem _ isLater)
    have step := view_step h first
    refine (ih (h.step action) later).trans ?_
    rw [step]
    cases named : part kind action with
    | none => rw [List.filterMap_cons_none named]; rfl
    | some own => rw [List.filterMap_cons_some named]; rfl

inductive Request
  | act (action : Action)
  | ask (kind : UInt8)
  deriving DecidableEq

inductive Answer
  | tracked (isTracked : Bool)
  | health (health : Option Health)

def Request.concerns (kind : UInt8) : Request → Bool
  | .act (.track k _) | .act (.update k) | .ask k => k = kind
  | .act (.advance _) | .act .stopAll | .act .cancel => true

def serve (s : Session) : Request → Session
  | .act action => s.step action
  | .ask _ => s

def serveAll (s : Session) (requests : List Request) : Session := requests.foldl serve s

def answer? (s : Session) : Request → Option Answer
  | .act (.update kind) => some (.tracked (s.monitor.isTracked kind))
  | .ask kind => some (.health (s.monitor.health? kind))
  | _ => none

def answers (kind : UInt8) (s : Session) : List Request → List Answer
  | [] => []
  | request :: rest =>
    (if request.concerns kind then (s.answer? request).toList else [])
      ++ answers kind (s.serve request) rest

theorem answer?_congr (same : s.view kind = s'.view kind) {request : Request}
    (isConcern : request.concerns kind) : s.answer? request = s'.answer? request := by
  have watchdog : s.monitor.watchdogs.get? kind = s'.monitor.watchdogs.get? kind :=
    congrArg Watchdog.Session.watchdog same
  cases request with
  | ask k =>
    obtain rfl : k = kind := of_decide_eq_true isConcern
    rw [answer?, answer?, health?, health?, watchdog]
  | act action =>
    cases action with
    | update k =>
      obtain rfl : k = kind := of_decide_eq_true isConcern
      rw [answer?, answer?, isTracked, isTracked, watchdog]
    | track | advance | stopAll | cancel => rfl

theorem cancelled_step (s : Session) (action : Action) :
    (s.step action).monitor.cancelled = (s.monitor.cancelled || action = .cancel) := by
  cases action with
  | track | stopAll => simp [step, track, stopAll]
  | update k => cases found : s.monitor.watchdogs.get? k <;> simp [step, Monitor.update, found]
  | cancel => simp [step, cancel]
  | advance ms =>
    have kept : s.settle.monitor.cancelled = s.monitor.cancelled := rfl
    rw [step, ← kept]
    generalize s.settle = s'
    fun_induction Session.runTo (s.now + ms) s' with
    | case1 s' time _ ih => exact ih
    | case2 s' => simp

structure Alike (kind : UInt8) (s s' : Session) : Prop where
  sound : s.Sound
  sound' : s'.Sound
  view : s.view kind = s'.view kind
  cancelled : s.monitor.cancelled = s'.monitor.cancelled

namespace Alike

theorem step (h : Alike kind s s') (action : Action) :
    Alike kind (s.step action) (s'.step action) where
  sound := h.sound.step action
  sound' := h.sound'.step action
  view := by
    by_cases tracks : ∃ i, action = .track kind i
    · obtain ⟨i, rfl⟩ := tracks
      have now : s.now = s'.now := congrArg Watchdog.Session.now h.view
      rw [view_track, view_track, h.view, h.cancelled, now]
    · have untracked : ∀ i, action ≠ .track kind i := fun i same => tracks ⟨i, same⟩
      rw [view_step h.sound untracked, view_step h.sound' untracked, h.view]
  cancelled := by rw [cancelled_step, cancelled_step, h.cancelled]

theorem step_left (h : Alike kind s s') {action : Action}
    (other : ¬ (Request.act action).concerns kind) : Alike kind (s.step action) s' where
  sound := h.sound.step action
  sound' := h.sound'
  view := by
    rw [← h.view]
    cases action with
    | track k i => exact view_track_other (by simpa [Request.concerns] using other) s i
    | update k => exact view_update_other h.sound.keyed (by simpa [Request.concerns] using other)
    | advance | stopAll | cancel => exact absurd rfl other
  cancelled := by
    rw [cancelled_step, h.cancelled]
    cases action with
    | cancel => exact absurd rfl other
    | track | update | advance | stopAll => simp

theorem serveAll (h : Alike kind s s') (requests : List Request) :
    let concerns := requests.filter (·.concerns kind)
    Alike kind (s.serveAll requests) (s'.serveAll concerns)
      ∧ answers kind s requests = answers kind s' concerns := by
  induction requests generalizing s s' with
  | nil => exact ⟨h, rfl⟩
  | cons request rest ih =>
    by_cases isConcern : request.concerns kind
    · have served : Alike kind (s.serve request) (s'.serve request) := by
        cases request with
        | act action => exact h.step action
        | ask => exact h
      obtain ⟨alike, same⟩ := ih served
      rw [List.filter_cons_of_pos isConcern]
      refine ⟨alike, ?_⟩
      rw [answers, answers, same, answer?_congr h.view isConcern]
    · have served : Alike kind (s.serve request) s' := by
        cases request with
        | act action => exact h.step_left isConcern
        | ask => exact h
      obtain ⟨alike, same⟩ := ih served
      rw [List.filter_cons_of_neg isConcern]
      refine ⟨alike, ?_⟩
      rw [answers, if_neg isConcern, same, List.nil_append]

end Alike

/-- A kind cannot tell two runs apart that agree on what concerns it: its events come at the same
times, it gets the same answers, and its watchdog is the same, if there is one.  Tracked anew, it
begins as unknown, and all its events to come are those of a fresh watchdog by itself. -/
theorem view_eq_of_concerns_eq {requests requests' : List Request}
    (same : requests.filter (·.concerns kind) = requests'.filter (·.concerns kind)) :
    let s := start.serveAll requests
    let s' := start.serveAll requests'
    s.view kind = s'.view kind
      ∧ answers kind start requests = answers kind start requests'
      ∧ s.monitor.isTracked kind = s'.monitor.isTracked kind
      ∧ ∀ interval later, (∀ i, .track kind i ∉ later) →
        let fresh : Watchdog := .spawn kind interval s.now
        let renewed := s.step (.track kind interval)
        renewed.monitor.health? kind = some .unknown
          ∧ (renewed.run later).view kind =
            Watchdog.Session.run
              ⟨s.now, some (if s.monitor.cancelled then fresh.stop else fresh), (s.view kind).log⟩
              (later.filterMap (part kind)) := by
  intro s s'
  have initial : Alike kind start start := ⟨sound_start, sound_start, rfl, rfl⟩
  obtain ⟨alike, told⟩ := initial.serveAll requests
  obtain ⟨alike', told'⟩ := initial.serveAll requests'
  rw [same] at alike told
  have view : s.view kind = s'.view kind := alike.view.trans alike'.view.symm
  have watchdog : s.monitor.watchdogs.get? kind = s'.monitor.watchdogs.get? kind :=
    congrArg Watchdog.Session.watchdog view
  refine ⟨view, told.trans told'.symm, by rw [isTracked, isTracked, watchdog], ?_⟩
  intro interval later untracked fresh renewed
  have sound : renewed.Sound := alike.sound.step _
  refine ⟨(health?_track _ _ _ _ _).trans (if_pos rfl), ?_⟩
  rw [view_run sound untracked, view_track]
  rfl

theorem view_eq_of_crowd :
    let own : List Request :=
      [.act (.track 30 1000), .act (.advance 900), .act (.update 30), .act (.advance 3000), .ask 30]
    let crowd : List Request :=
      [.act (.track 30 1000), .act (.track 0 700), .act (.advance 900), .act (.update 0),
        .act (.update 30), .act (.track 0 7), .act (.advance 3000), .ask 0, .ask 30]
    own.filter (·.concerns 30) = crowd.filter (·.concerns 30)
      ∧ (start.serveAll own).view 30 = (start.serveAll crowd).view 30
      ∧ answers 30 start own = answers 30 start crowd
      ∧ (((start.serveAll own).step (.track 30 50)).run [.advance 200]).view 30 =
        Watchdog.Session.run
          ⟨3900, some (.spawn 30 50 3900), ((start.serveAll own).view 30).log⟩ [.advance 200] := by
  intro own crowd
  have same : own.filter (·.concerns 30) = crowd.filter (·.concerns 30) := by decide
  obtain ⟨view, told, -, renewed⟩ := view_eq_of_concerns_eq same
  have now : (start.serveAll own).now = 3900 := by decide +kernel
  have running : (start.serveAll own).monitor.cancelled = false := by decide +kernel
  obtain ⟨-, alone⟩ := renewed 50 [.advance 200] (by simp)
  rw [now, running] at alone
  exact ⟨same, view, told, alone⟩

end Session

end Monitor

end VehicleLink
