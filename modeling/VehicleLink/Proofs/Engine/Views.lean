import Mathlib.Data.List.Find
import VehicleLink.Proofs.Engine.History
import VehicleLink.Proofs.Parameters.Table

/-! The parameters by name and by index.  Each view holds what was reported last under its key,
but a report under a name alone is in one of them only, and the other goes on with the value from
before. -/

namespace VehicleLink

namespace Occurrence

def reports (past : List Occurrence) : List ParamReport := (sinceReset past).filterMap report?

variable {past : List Occurrence} {o : Occurrence}

theorem reports_cons_of_reset (resets : o.isReset) : reports (o :: past) = [] := by
  rw [reports, sinceReset, List.takeWhile_cons_of_neg (by simp [resets]), List.filterMap_nil]

theorem reports_cons (kept : o.isReset = false) :
    reports (o :: past) = o.report?.toList ++ reports past := by
  rw [reports, sinceReset_cons kept]
  cases reported : o.report? with
  | none => exact List.filterMap_cons_none reported
  | some p => exact List.filterMap_cons_some reported

end Occurrence

namespace Memory

open Occurrence

theorem params_after (k : Memory) (o : Occurrence) :
    (o.isReset ∧ (k.after o).params = .empty)
      ∨ o.isReset = false ∧ (∃ p, o.report? = some p
          ∧ (k.after o).params = (k.params.begin p.count).record p.index p.name p.value)
      ∨ o.isReset = false ∧ o.report? = none ∧ (k.after o).params.byName = k.params.byName
          ∧ (k.after o).params.byIndex = k.params.byIndex := by
  cases o with
  | heard m =>
    refine .inr ?_
    rw [after]
    split
    · next same => exact .inr ⟨rfl, by rw [report?, same], rfl, rfl⟩
    · next p same =>
      have name : m.name = "PARAM_VALUE" := Incoming.name_of_source? (by rw [same]; rfl)
      exact .inl ⟨rfl, p, by simp [report?, same, name], rfl⟩
    · next noReport =>
      refine .inr ⟨rfl, ?_, rfl, rfl⟩
      rw [report?]
      split
      · next p same => exact absurd same (noReport p)
      · rfl
  | lost => exact .inl ⟨rfl, rfl⟩
  | refreshed => exact .inl ⟨rfl, rfl⟩
  | started now => exact .inr (.inr ⟨rfl, rfl, rfl, rfl⟩)
  | expired => exact .inr (.inr ⟨rfl, rfl, rfl, rfl⟩)

/-- A view that shows some of the reports holds the last of them, or what it held before if
there are none and nothing was dropped. -/
theorem view_replay (view : Parameters → Option Single) {shows : ParamReport → Bool}
    (blank : view .empty = none)
    (records : ∀ k p, view ((k.begin p.count).record p.index p.name p.value) =
      if shows p then some p.value else view k)
    (stays : ∀ k k' : Parameters, k'.byName = k.byName → k'.byIndex = k.byIndex →
      view k' = view k) (k : Memory) (new : List Occurrence) :
    view (k.replay new).params =
      (((reports new).find? shows).map ParamReport.value).or
        (if new.any isReset then none else view k.params) := by
  induction new with
  | nil => rfl
  | cons o rest ih =>
    rw [replay, List.foldr_cons, ← replay, List.any_cons]
    rcases params_after (k.replay rest) o with
      ⟨resets, same⟩ | ⟨kept, p, reported, same⟩ | ⟨kept, silent, byName, byIndex⟩
    · rw [reports_cons_of_reset resets, same, blank, resets]
      rfl
    · rw [reports_cons kept, reported, same, records, Option.toList_some, List.singleton_append,
        kept, Bool.false_or]
      by_cases shown : shows p
      · rw [if_pos shown, List.find?_cons_of_pos shown, Option.map_some, Option.some_or]
      · rw [if_neg shown, List.find?_cons_of_neg shown, ih]
    · rw [reports_cons kept, silent, stays _ _ byName byIndex, kept, Bool.false_or]
      exact ih

theorem get?_replay (k : Memory) (new : List Occurrence) (name : String) :
    (k.replay new).params.get? name =
      (((reports new).find? (·.name = name)).map ParamReport.value).or
        (if new.any isReset then none else k.params.get? name) :=
  view_replay (·.get? name) (by simp [Parameters.get?, Parameters.empty])
    (fun k p => by simp [Parameters.get?_record])
    (fun k k' byName _ => by rw [Parameters.get?, byName, Parameters.get?]) k new

theorem atIndex?_replay (k : Memory) (new : List Occurrence) (index : UInt16) :
    (k.replay new).params.atIndex? index =
      (((reports new).find? fun p => p.index = index ∧ p.index ≠ Parameters.noIndex).map
        ParamReport.value).or (if new.any isReset then none else k.params.atIndex? index) :=
  view_replay (·.atIndex? index) (by simp [Parameters.atIndex?, Parameters.empty])
    (fun k p => by simp [Parameters.atIndex?_record])
    (fun k k' _ byIndex => by rw [Parameters.atIndex?, byIndex, Parameters.atIndex?]) k new

end Memory

/-- Names and indices belong together one to one, and each report is of a parameter under its name,
with its own index or with none. -/
structure Assigned (own : String → Option UInt16) (reports : List ParamReport) : Prop where
  apart : ∀ name name' index, own name = some index → own name' = some index → name = name'
  assigned : ∀ p ∈ reports, ∃ index ∈ own p.name, p.index = index ∨ p.index = Parameters.noIndex

theorem Assigned.index_eq_iff {own : String → Option UInt16} {reports : List ParamReport}
    (h : Assigned own reports) {name : String} {index : UInt16} (isOwn : own name = some index)
    {p : ParamReport} (isReport : p ∈ reports) (numbered : p.index ≠ Parameters.noIndex) :
    p.index = index ↔ p.name = name := by
  obtain ⟨own', isOwn', bears⟩ := h.assigned p isReport
  have bears : p.index = own' := bears.resolve_right numbered
  constructor
  · rintro rfl
    exact h.apart _ _ _ (bears ▸ isOwn') isOwn
  · rintro rfl
    exact bears.trans (Option.some.inj (isOwn'.symm.trans isOwn))

namespace Engine

open Occurrence Parameters

theorem params_steps (r : Registry) (c : EngineConfig) (receiver : Receiver)
    (actions : List Action) :
    let e := (start r c receiver).steps actions
    let told := reports ((start r c receiver).history actions)
    (∀ name, e.params.get? name = (told.find? (·.name = name)).map ParamReport.value)
      ∧ ∀ index, e.params.atIndex? index =
        (told.find? fun p => p.index = index ∧ p.index ≠ noIndex).map ParamReport.value := by
  intro e told
  have remembers : e.params = (Memory.empty.replay ((start r c receiver).history actions)).params :=
    congrArg Memory.params (memory_steps (start r c receiver) actions)
  refine ⟨fun name => ?_, fun index => ?_⟩
  · rw [remembers, Memory.get?_replay]
    simp [Memory.empty, Parameters.empty, Parameters.get?, told]
  · rw [remembers, Memory.atIndex?_replay]
    simp [Memory.empty, Parameters.empty, Parameters.atIndex?, told]

/-- By name a parameter has the value of the last report of it, and by index that of the last report
that named the index.  So the views agree on it exactly if these two values are one. -/
theorem views_agree_iff (r : Registry) (c : EngineConfig) (receiver : Receiver)
    (actions : List Action) {own : String → Option UInt16}
    (assigned : Assigned own (reports ((start r c receiver).history actions))) {name : String}
    {index : UInt16} (isOwn : own name = some index) :
    let e := (start r c receiver).steps actions
    let mine := (reports ((start r c receiver).history actions)).filter (·.name = name)
    e.params.get? name = mine.head?.map ParamReport.value
      ∧ e.params.atIndex? index = (mine.find? (·.index ≠ noIndex)).map ParamReport.value
      ∧ ((∀ v, e.params.atIndex? index = some v → e.params.get? name = some v)
        ↔ ∀ newest ∈ mine.head?, ∀ numbered ∈ mine.find? (·.index ≠ noIndex),
          newest.value = numbered.value) := by
  intro e mine
  have byName : e.params.get? name = mine.head?.map ParamReport.value := by
    rw [(params_steps r c receiver actions).1, List.head?_filter]
  have byIndex : e.params.atIndex? index =
      (mine.find? (·.index ≠ noIndex)).map ParamReport.value := by
    rw [(params_steps r c receiver actions).2, List.find?_filter]
    congr 1
    refine List.find?_congr fun p isReport => Bool.eq_iff_iff.mpr ?_
    simpa using assigned.index_eq_iff isOwn isReport
  refine ⟨byName, byIndex, ?_⟩
  rw [byName, byIndex]
  cases first : mine.find? (·.index ≠ noIndex) with
  | none => simp
  | some numbered =>
    cases reported : mine with
    | nil =>
      rw [reported] at first
      cases first
    | cons newest rest => simp [eq_comm]

def lone (name : String) : Option UInt16 := if name = "A" then some 0 else none

theorem lone_inj {name name' : String} {index : UInt16} (h : lone name = some index)
    (h' : lone name' = some index) : name = name' := by
  rw [lone, Option.ite_none_right_eq_some] at h h'
  exact h.1.trans h'.1.symm

def reporting (high : UInt8) (index : List UInt8) : Action :=
  arrival 22 ([0, 0, 0, high, 1, 0] ++ index ++ 65 :: List.replicate 15 0)

/-- The value under an index does not follow a report of the parameter by its name. -/
theorem views_differ_of_echo :
    let actions := [reporting 63 [0, 0], reporting 64 [255, 255]]
    let e := (start scarce {} .ready).steps actions
    Assigned lone (reports ((start scarce {} .ready).history actions)) ∧ lone "A" = some 0
      ∧ e.params.atIndex? 0 = some ⟨0x3F000000⟩ ∧ e.params.get? "A" = some ⟨0x40000000⟩ := by
  intro actions e
  exact ⟨⟨fun _ _ _ => lone_inj, by decide +kernel⟩, rfl, by decide +kernel, by decide +kernel⟩

theorem views_agree_of_list :
    let actions := [reporting 63 [0, 0], reporting 64 [255, 255], reporting 64 [0, 0]]
    let e := (start scarce {} .ready).steps actions
    Assigned lone (reports ((start scarce {} .ready).history actions)) ∧ lone "A" = some 0
      ∧ ∀ v, e.params.atIndex? 0 = some v → e.params.get? "A" = some v := by
  intro actions e
  have assigned : Assigned lone (reports ((start scarce {} .ready).history actions)) :=
    ⟨fun _ _ _ => lone_inj, by decide +kernel⟩
  refine ⟨assigned, rfl, (views_agree_iff scarce {} .ready actions assigned rfl).2.2.mpr ?_⟩
  decide +kernel

end Engine

end VehicleLink
