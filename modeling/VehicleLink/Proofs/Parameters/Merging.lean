import Mathlib.Data.List.Induction
import VehicleLink.Proofs.Parameters.Table
import VehicleLink.Vehicle.Incoming

namespace VehicleLink

/-- All announce one number of parameters, and what is said twice of an index or a name is the
same. -/
structure Consistent (reports : List ParamReport) : Prop where
  counts : ∀ r ∈ reports, ∀ r' ∈ reports, r.count = r'.count
  indices : ∀ r ∈ reports, ∀ r' ∈ reports, r.index = r'.index → r.index ≠ Parameters.noIndex →
    r.value = r'.value
  names : ∀ r ∈ reports, ∀ r' ∈ reports, r.name = r'.name → r.value = r'.value

theorem Consistent.mono {reports reports' : List ParamReport} (h : Consistent reports)
    (fewer : ∀ r ∈ reports', r ∈ reports) : Consistent reports' where
  counts r isReport r' isReport' := h.counts r (fewer r isReport) r' (fewer r' isReport')
  indices r isReport r' isReport' := h.indices r (fewer r isReport) r' (fewer r' isReport')
  names r isReport r' isReport' := h.names r (fewer r isReport) r' (fewer r' isReport')

namespace Parameters

def learn (p : Parameters) (r : ParamReport) : Parameters :=
  (p.begin r.count).record r.index r.name r.value

def learnAll (p : Parameters) (reports : List ParamReport) : Parameters := reports.foldl learn p

theorem learnAll_append (p : Parameters) (reports : List ParamReport) (r : ParamReport) :
    p.learnAll (reports ++ [r]) = (p.learnAll reports).learn r :=
  List.foldl_concat ..

theorem get?_learn (p : Parameters) (r : ParamReport) (name : String) :
    (p.learn r).get? name = if r.name = name then some r.value else p.get? name := by
  rw [learn, get?_record, get?_begin]

theorem atIndex?_learn (p : Parameters) (r : ParamReport) (index : UInt16) :
    (p.learn r).atIndex? index =
      if r.index = index ∧ r.index ≠ noIndex then some r.value else p.atIndex? index := by
  rw [learn, atIndex?_record, atIndex?_begin]

theorem mem_arrived_learn (p : Parameters) (r : ParamReport) (index : UInt16) :
    index ∈ (p.learn r).arrived ↔ r.index = index ∧ r.index ≠ noIndex ∨ index ∈ p.arrived :=
  mem_arrived_record ..

/-- Every report stands in the table, and all of which there is no report is as before. -/
structure Merges (p : Parameters) (reports : List ParamReport) (p' : Parameters) : Prop where
  total : ∀ r ∈ reports, p'.total = some r.count
  named : ∀ r ∈ reports, p'.get? r.name = some r.value
  numbered : ∀ r ∈ reports, r.index ≠ noIndex → p'.atIndex? r.index = some r.value
  otherTotal : reports = [] → p'.total = p.total
  otherName : ∀ name, (∀ r ∈ reports, r.name ≠ name) → p'.get? name = p.get? name
  otherIndex : ∀ index, (∀ r ∈ reports, r.index = index → index = noIndex) →
    p'.atIndex? index = p.atIndex? index
  arrived : ∀ index, index ∈ p'.arrived ↔
    (∃ r ∈ reports, r.index = index ∧ r.index ≠ noIndex) ∨ index ∈ p.arrived
  forced : p'.forced = p.forced
  startedAt : p'.startedAt = p.startedAt

namespace Merges

variable {p p' p'' : Parameters} {reports reports' : List ParamReport}

theorem nil (p : Parameters) : Merges p [] p where
  total := nofun
  named := nofun
  numbered := nofun
  otherTotal _ := rfl
  otherName _ _ := rfl
  otherIndex _ _ := rfl
  arrived _ := by simp
  forced := rfl
  startedAt := rfl

theorem learn (h : Merges p reports p') {r : ParamReport}
    (consistent : Consistent (reports ++ [r])) : Merges p (reports ++ [r]) (p'.learn r) where
  total old isReport := by
    rw [consistent.counts old isReport r (by simp)]
    rfl
  named old isReport := by
    rw [get?_learn]
    by_cases same : r.name = old.name
    · rw [if_pos same, consistent.names r (by simp) old isReport same]
    · rw [if_neg same]
      refine h.named old ((List.mem_append.mp isReport).resolve_right fun isLast => same ?_)
      rw [List.mem_singleton.mp isLast]
  numbered old isReport isNumber := by
    rw [atIndex?_learn]
    by_cases same : r.index = old.index
    · have isNumber' : r.index ≠ noIndex := same ▸ isNumber
      rw [if_pos ⟨same, isNumber'⟩, consistent.indices r (by simp) old isReport same isNumber']
    · rw [if_neg fun both => same both.1]
      refine h.numbered old ((List.mem_append.mp isReport).resolve_right fun isLast => same ?_)
        isNumber
      rw [List.mem_singleton.mp isLast]
  otherTotal none := absurd none (by simp)
  otherName name other := by
    rw [get?_learn, if_neg (other r (by simp))]
    exact h.otherName name fun old isReport => other old (List.mem_append_left _ isReport)
  otherIndex index other := by
    rw [atIndex?_learn, if_neg fun ⟨same, isNumber⟩ => isNumber (same ▸ other r (by simp) same)]
    exact h.otherIndex index fun old isReport => other old (List.mem_append_left _ isReport)
  arrived index := by
    rw [mem_arrived_learn, h.arrived]
    simp [or_and_right, exists_or, or_assoc, or_left_comm]
  forced := h.forced
  startedAt := h.startedAt

theorem learnAll (p : Parameters) (consistent : Consistent reports) :
    Merges p reports (p.learnAll reports) := by
  induction reports using List.reverseRecOn with
  | nil => exact nil p
  | append_singleton earlier r ih =>
    rw [learnAll_append]
    have before : Consistent earlier := consistent.mono fun _ => List.mem_append_left _
    exact (ih before).learn consistent

end Merges

structure Alike (p p' : Parameters) : Prop where
  total : p.total = p'.total
  snapshot : p.snapshot = p'.snapshot
  missing : p.missing = p'.missing
  get? : ∀ name, p.get? name = p'.get? name
  atIndex? : ∀ index, p.atIndex? index = p'.atIndex? index
  isComplete : p.isComplete = p'.isComplete
  progress : p.progress = p'.progress
  isStarted : p.isStarted = p'.isStarted

section Alike

variable {p p' : Parameters}

theorem missing_congr (total : p.total = p'.total)
    (arrived : p.arrived.contains = p'.arrived.contains) : p.missing = p'.missing := by
  rw [missing, missing, total, arrived]

theorem received_congr (total : p.total = p'.total)
    (arrived : p.arrived.contains = p'.arrived.contains) : p.received = p'.received := by
  cases announced : p.total with
  | none => rw [received, received, ← total, announced]
  | some n => rw [received_of_total announced, received_of_total (total ▸ announced), arrived]

theorem alike_of_eq (total : p.total = p'.total) (forced : p.forced = p'.forced)
    (startedAt : p.startedAt = p'.startedAt) (get? : ∀ name, p.get? name = p'.get? name)
    (atIndex? : ∀ index, p.atIndex? index = p'.atIndex? index)
    (arrived : ∀ index, index ∈ p.arrived ↔ index ∈ p'.arrived) : Alike p p' := by
  have contains : p.arrived.contains = p'.arrived.contains :=
    funext fun index => Bool.eq_iff_iff.mpr (arrived index)
  have missing := missing_congr total contains
  have received := received_congr total contains
  have values : p.byName.toList = p'.byName.toList :=
    Std.TreeMap.equiv_iff_toList_eq.mp (.of_forall_constGet?_eq get?)
  exact {
    total, missing, get?, atIndex?
    snapshot := by rw [snapshot, snapshot, total, received, values, missing, forced]
    isComplete := by rw [isComplete, isComplete, forced, total, missing]
    progress := by rw [progress, percentage, progress, percentage, total, received]
    isStarted := by rw [isStarted, isStarted, startedAt] }

end Alike

theorem Merges.alike {p p' p'' : Parameters} {reports reports' : List ParamReport}
    (h : Merges p reports p') (h' : Merges p reports' p'')
    (same : ∀ r, r ∈ reports ↔ r ∈ reports') : Alike p' p'' := by
  refine alike_of_eq ?_ (h.forced.trans h'.forced.symm) (h.startedAt.trans h'.startedAt.symm) ?_ ?_ ?_
  · cases reports with
    | nil =>
      have none : reports' = [] := List.eq_nil_iff_forall_not_mem.mpr fun r isReport =>
        List.not_mem_nil ((same r).mpr isReport)
      rw [h.otherTotal rfl, h'.otherTotal none]
    | cons r rest =>
      rw [h.total r List.mem_cons_self, h'.total r ((same r).mp List.mem_cons_self)]
  · intro name
    by_cases reported : ∃ r ∈ reports, r.name = name
    · obtain ⟨r, isReport, rfl⟩ := reported
      rw [h.named r isReport, h'.named r ((same r).mp isReport)]
    · have other : ∀ r ∈ reports, r.name ≠ name := by simpa using reported
      rw [h.otherName name other, h'.otherName name fun r isReport =>
        other r ((same r).mpr isReport)]
  · intro index
    by_cases reported : ∃ r ∈ reports, r.index = index ∧ index ≠ noIndex
    · obtain ⟨r, isReport, rfl, isNumber⟩ := reported
      rw [h.numbered r isReport isNumber, h'.numbered r ((same r).mp isReport) isNumber]
    · have other : ∀ r ∈ reports, r.index = index → index = noIndex := by simpa using reported
      rw [h.otherIndex index other, h'.otherIndex index fun r isReport =>
        other r ((same r).mpr isReport)]
  · intro index
    rw [h.arrived, h'.arrived]
    simp only [same]

end Parameters

end VehicleLink
