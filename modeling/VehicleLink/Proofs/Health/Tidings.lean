import VehicleLink.Proofs.Engine.Interleaving

/-! Health and the events that tell of it: who knows the health of a kind and hears all events
of it from then on knows it ever after. -/

namespace VehicleLink

namespace Assoc

theorem keys_mapValues {κ ν : Type} (m : Assoc κ ν) (f : ν → ν) :
    (m.mapValues f).keys = m.keys := by
  rw [keys, mapValues, List.map_map]
  rfl

variable {κ ν : Type} [DecidableEq κ] {m : Assoc κ ν} {k : κ} {v : ν}

theorem mem_entries_of_get? (h : m.get? k = some v) : (k, v) ∈ m.entries := by
  obtain ⟨entries⟩ := m
  rw [get?] at h
  induction entries with
  | nil => cases h
  | cons e rest ih =>
    rw [find] at h
    split at h
    · next same =>
      cases h
      rw [← same]
      exact List.mem_cons_self
    · exact List.mem_cons_of_mem _ (ih h)

theorem eq_or_mem_of_mem_insert {e : κ × ν} (h : e ∈ (m.insert k v).entries) :
    e = (k, v) ∨ e ∈ m.entries := by
  obtain ⟨entries⟩ := m
  rw [insert] at h
  induction entries with
  | nil => exact .inl (List.mem_singleton.mp h)
  | cons first rest ih =>
    dsimp only [put] at h
    split at h
    · exact (List.mem_cons.mp h).imp_right (List.mem_cons_of_mem _)
    · rcases List.mem_cons.mp h with rfl | later
      · exact .inr List.mem_cons_self
      · exact (ih later).imp_right (List.mem_cons_of_mem _)

theorem nodup_keys_insert (h : m.keys.Nodup) (k : κ) (v : ν) : (m.insert k v).keys.Nodup := by
  obtain ⟨entries⟩ := m
  induction entries with
  | nil => exact List.pairwise_singleton _ _
  | cons first rest ih =>
    obtain ⟨fresh, distinct⟩ := List.nodup_cons.mp h
    simp only [keys, insert, put] at ih fresh ⊢
    split
    · next same =>
      rw [List.map_cons, List.nodup_cons]
      exact ⟨same ▸ fresh, distinct⟩
    · next other =>
      rw [List.map_cons, List.nodup_cons]
      refine ⟨fun old => ?_, ih distinct⟩
      obtain ⟨e, isMember, same⟩ := List.mem_map.mp old
      rcases eq_or_mem_of_mem_insert (m := ⟨rest⟩) isMember with rfl | later
      · exact other same.symm
      · exact fresh (same ▸ List.mem_map_of_mem later)

end Assoc

/-- The health of a kind after some events.  An event that says `unknown` says nothing. -/
def Health.after (h : Health) (kind : UInt8) (events : List HealthEvent) : Health :=
  events.foldl (fun h e => if e.kind = kind ∧ e.health ≠ .unknown then e.health else h) h

namespace Health

variable {h : Health} {kind : UInt8} {events : List HealthEvent}

theorem after_append (events' : List HealthEvent) :
    h.after kind (events ++ events') = (h.after kind events).after kind events' :=
  List.foldl_append

theorem after_of_silent (silent : ∀ e ∈ events, e.kind ≠ kind) : h.after kind events = h := by
  induction events generalizing h with
  | nil => rfl
  | cons e rest ih =>
    have other : ¬ (e.kind = kind ∧ e.health ≠ .unknown) :=
      fun same => silent e List.mem_cons_self same.1
    rw [after, List.foldl_cons, if_neg other]
    exact ih fun e' later => silent e' (List.mem_cons_of_mem _ later)

end Health

/-- The events of a watchdog tell of every change of its health, and of no other kind. -/
structure Watchdog.Tells (w w' : Watchdog) (events : List HealthEvent) : Prop where
  kind : w'.kind = w.kind
  own : ∀ e ∈ events, e.kind = w.kind
  health : w'.health = w.health.after w.kind events

namespace Watchdog.Tells

theorem quiet {w w' : Watchdog} (kind : w'.kind = w.kind) (health : w'.health = w.health) :
    w.Tells w' [] :=
  ⟨kind, nofun, health⟩

theorem update (w : Watchdog) (now : Nat) : w.Tells (w.update now).1 (w.update now).2 := by
  rw [Watchdog.update]
  split
  · next up => exact quiet rfl up.symm
  · exact ⟨rfl, by simp, by simp [Health.after]⟩

theorem check (w : Watchdog) (now : Nat) : w.Tells (w.check now).1 (w.check now).2 := by
  rw [Watchdog.check]
  split
  · exact ⟨rfl, by simp, by simp [Health.after]⟩
  · exact quiet rfl rfl

theorem fire (w : Watchdog) (now : Nat) : w.Tells (w.fire now).1 (w.fire now).2 := by
  rw [Watchdog.fire]
  split
  · split
    · obtain ⟨kind, own, health⟩ := check { w with timer := some (Timer.next _ now) } _
      exact ⟨kind, own, health⟩
    · exact quiet rfl rfl
  · exact quiet rfl rfl

theorem fireIf (w : Watchdog) (kinds : List UInt8) (now : Nat) :
    w.Tells (w.fireIf kinds now).1 (w.fireIf kinds now).2 := by
  rw [Watchdog.fireIf]
  split
  · exact fire w now
  · exact quiet rfl rfl

end Watchdog.Tells

namespace Monitor

structure Keyed (m : Monitor) : Prop where
  own : ∀ e ∈ m.watchdogs.entries, e.2.kind = e.1
  distinct : m.watchdogs.keys.Nodup

theorem keyed_empty : empty.Keyed := ⟨nofun, .nil⟩

theorem Keyed.insert {m : Monitor} (h : m.Keyed) {kind : UInt8} {w : Watchdog}
    (own : w.kind = kind) : Keyed { m with watchdogs := m.watchdogs.insert kind w } where
  own := by
    intro e isMember
    rcases Assoc.eq_or_mem_of_mem_insert isMember with rfl | old
    · exact own
    · exact h.own e old
  distinct := Assoc.nodup_keys_insert h.distinct _ _

theorem Keyed.track {m : Monitor} (h : m.Keyed) (kind : UInt8) (interval now : Nat) :
    (m.track kind interval now).Keyed := by
  refine h.insert ?_
  split <;> rfl

theorem health?_track (m : Monitor) (kind kind' : UInt8) (interval now : Nat) :
    (m.track kind interval now).health? kind' =
      if kind = kind' then some .unknown else m.health? kind' := by
  rw [health?, track, Assoc.get?_insert]
  split
  · split <;> rfl
  · rfl

section Turns

variable {turn : Watchdog → Watchdog × List HealthEvent}
  (tells : ∀ w : Watchdog, w.Tells (turn w).1 (turn w).2) {entries : List (UInt8 × Watchdog)}
  (own : ∀ e ∈ entries, e.2.kind = e.1)

include tells own

theorem silent_turns {kind : UInt8} (fresh : kind ∉ entries.map Prod.fst) :
    ∀ e ∈ (entries.map Prod.snd).flatMap fun w => (turn w).2, e.kind ≠ kind := by
  intro e isEvent told
  obtain ⟨w, isWatchdog, isEvent⟩ := List.mem_flatMap.mp isEvent
  obtain ⟨entry, isEntry, rfl⟩ := List.mem_map.mp isWatchdog
  have kept : entry.1 = kind :=
    (own entry isEntry).symm.trans (((tells _).own e isEvent).symm.trans told)
  exact fresh (List.mem_map.mpr ⟨entry, isEntry, kept⟩)

theorem health_turns (distinct : (entries.map Prod.fst).Nodup) (kind : UInt8) :
    (Assoc.find kind entries).map (fun w => (turn w).1.health) =
      (Assoc.find kind entries).map fun w =>
        w.health.after kind ((entries.map Prod.snd).flatMap fun w => (turn w).2) := by
  induction entries with
  | nil => rfl
  | cons entry rest ih =>
    obtain ⟨key, w⟩ := entry
    have isOwn : w.kind = key := own _ List.mem_cons_self
    have ownRest := fun e later => own e (List.mem_cons_of_mem _ later)
    obtain ⟨fresh, distinctRest⟩ := List.nodup_cons.mp distinct
    simp only [List.map_cons, List.flatMap_cons, Assoc.find, Health.after_append]
    split
    · next same =>
      subst same
      rw [Option.map_some, Option.map_some, (tells w).health, isOwn,
        Health.after_of_silent (silent_turns tells ownRest fresh)]
    · next other =>
      have silent (h : Health) : h.after kind (turn w).2 = h :=
        Health.after_of_silent fun e isEvent told =>
          other (isOwn.symm.trans (((tells w).own e isEvent).symm.trans told))
      simp only [silent]
      exact ih ownRest distinctRest

end Turns

structure Tells (m m' : Monitor) (events : List HealthEvent) : Prop where
  keyed : m.Keyed → m'.Keyed
  health : m.Keyed → ∀ kind, m'.health? kind = (m.health? kind).map (·.after kind events)

namespace Tells

variable {m m' m'' : Monitor} {events events' : List HealthEvent}

theorem refl (m : Monitor) : m.Tells m [] := ⟨id, fun _ _ => Option.map_id_apply.symm⟩

theorem trans (h : m.Tells m' events) (h' : m'.Tells m'' events') :
    m.Tells m'' (events ++ events') where
  keyed keyed := h'.keyed (h.keyed keyed)
  health keyed kind := by
    rw [h'.health (h.keyed keyed), h.health keyed, Option.map_map]
    congr 1
    funext health
    exact (Health.after_append events').symm

theorem update (m : Monitor) (kind : UInt8) (now : Nat) :
    m.Tells (m.update kind now).1 (m.update kind now).2 := by
  rw [Monitor.update]
  split
  · next w found =>
    have told := Watchdog.Tells.update w now
    generalize w.update now = updated at told
    obtain ⟨w', events⟩ := updated
    refine ⟨fun keyed => ?_, fun keyed other => ?_⟩
    all_goals have own : w.kind = kind := keyed.own _ (Assoc.mem_entries_of_get? found)
    · exact keyed.insert (told.kind.trans own)
    · rw [health?, health?, Assoc.get?_insert]
      split
      · next same =>
        rw [← same, found, Option.map_some, Option.map_some, Option.map_some, told.health, own]
      · next differs =>
        have silent (h : Health) : h.after other events = h :=
          Health.after_of_silent fun e isEvent same =>
            differs (own.symm.trans ((told.own e isEvent).symm.trans same))
        simp only [silent]
        exact Option.map_id_apply.symm
  · exact refl m

section Turns

variable {turn : Watchdog → Watchdog × List HealthEvent}
  (tells : ∀ w : Watchdog, w.Tells (turn w).1 (turn w).2)

include tells

theorem mapValues (m : Monitor) (cancelled : Bool) :
    m.Tells ⟨m.watchdogs.mapValues fun w => (turn w).1, cancelled⟩
      (m.watchdogs.values.flatMap fun w => (turn w).2) := by
  refine ⟨fun keyed => ⟨?_, ?_⟩, fun keyed kind => ?_⟩
  · intro e isMember
    obtain ⟨old, isOld, rfl⟩ := List.mem_map.mp isMember
    exact (tells old.2).kind.trans (keyed.own old isOld)
  · rw [Assoc.keys_mapValues]
    exact keyed.distinct
  · rw [health?, health?, Assoc.get?_mapValues, Option.map_map, Option.map_map]
    exact health_turns tells keyed.own keyed.distinct kind

end Turns

theorem fireOnly (m : Monitor) (kinds : List UInt8) (now : Nat) :
    m.Tells (m.fireOnly kinds now).1 (m.fireOnly kinds now).2 :=
  mapValues (.fireIf · kinds now) m m.cancelled

theorem cancel (m : Monitor) : m.Tells m.cancel [] := by
  have stopped := @mapValues (fun w => (w.stop, [])) (fun _ => .quiet rfl rfl) m true
  rwa [List.flatMap_eq_nil_iff.mpr fun _ _ => rfl] at stopped

end Tells

end Monitor

end VehicleLink
